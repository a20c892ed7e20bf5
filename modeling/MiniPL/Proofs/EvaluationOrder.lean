import MiniPL.Proofs.Pointing

/-!
# The order of evaluation

An expression evaluates its sub-expressions one after another: the operands from left to right, each
of them whole, and then the operator (`Expr.postorder`).  No operator leaves an operand out, so that
an expression has a value only where all of its sub-expressions have one
(`Expr.succeeds_of_mem_postorder`), and no operator changes the fault of an operand, so that an
expression that fails does so with the fault of the first that fails.

Main statement: `Expr.eval_fails_as_first`.
-/

namespace MiniPL

namespace Expr

/-- The sub-expressions in the order in which they are evaluated; the expression itself is the
last. -/
def postorder : Expr → List Expr
  | not operand position => operand.postorder ++ [not operand position]
  | binary op left right position =>
    left.postorder ++ (right.postorder ++ [binary op left right position])
  | e => [e]

/-- The order holds the nodes of the expression and no others. -/
theorem mem_postorder_iff {e part : Expr} : part ∈ e.postorder ↔ .expr part ∈ e.nodes := by
  induction e with
  | int | string | bool | var =>
    simp only [postorder, nodes, List.mem_singleton, Node.expr.injEq]
  | not operand position ih =>
    simp only [postorder, nodes, List.mem_append, List.mem_cons, List.not_mem_nil, or_false,
      Node.expr.injEq, ih]
    exact or_comm
  | binary op left right position ihleft ihright =>
    simp only [postorder, nodes, List.mem_append, List.mem_cons, List.not_mem_nil, or_false,
      Node.expr.injEq, ihleft, ihright]
    exact or_assoc.symm.trans or_comm

variable {store : Store}

/-- The expression has a value in the store. -/
def Succeeds (store : Store) (e : Expr) : Prop :=
  ∃ value, e.eval store = .ok value

/-- The first of the expressions that fails, evaluated on its own, gives the fault. -/
def FirstFails (store : Store) (parts : List Expr) (fault : Diagnostic) : Prop :=
  ∃ front first back, parts = front ++ first :: back ∧ (∀ part ∈ front, part.Succeeds store) ∧
    first.eval store = .error fault

/-! ### One operator -/

theorem succeeds_of_not {operand : Expr} {position : Position}
    (h : (not operand position).Succeeds store) : operand.Succeeds store := by
  obtain ⟨value, heval⟩ := h
  cases hoperand : operand.eval store with
  | ok a => exact ⟨a, hoperand⟩
  | error fault =>
    rw [eval, hoperand] at heval
    cases heval

/-- An operator with two operands needs both, whatever the first one gives. -/
theorem succeeds_of_binary {op : BinaryOp} {left right : Expr} {position : Position}
    (h : (binary op left right position).Succeeds store) :
    left.Succeeds store ∧ right.Succeeds store := by
  obtain ⟨value, heval⟩ := h
  cases hleft : left.eval store with
  | error fault =>
    rw [eval, hleft] at heval
    cases heval
  | ok a =>
    cases hright : right.eval store with
    | ok b => exact ⟨⟨a, hleft⟩, b, hright⟩
    | error fault =>
      rw [eval, hleft, hright] at heval
      cases heval

theorem eval_not_of_error {operand : Expr} {fault : Diagnostic}
    (h : operand.eval store = .error fault) (position : Position) :
    (not operand position).eval store = .error fault := by
  rw [eval, h]
  rfl

theorem eval_binary_of_left_error {left : Expr} {fault : Diagnostic}
    (h : left.eval store = .error fault) (op : BinaryOp) (right : Expr) (position : Position) :
    (binary op left right position).eval store = .error fault := by
  rw [eval, h]
  rfl

theorem eval_binary_of_right_error {left right : Expr} {fault : Diagnostic}
    (hleft : left.Succeeds store) (h : right.eval store = .error fault) (op : BinaryOp)
    (position : Position) : (binary op left right position).eval store = .error fault := by
  obtain ⟨a, ha⟩ := hleft
  rw [eval, ha, h]
  rfl

/-! ### All sub-expressions -/

/-- What has a value, each of its sub-expressions has one. -/
theorem succeeds_of_mem_postorder {e : Expr} (h : e.Succeeds store) :
    ∀ part ∈ e.postorder, part.Succeeds store := by
  induction e with
  | int | string | bool | var => exact List.forall_mem_singleton.2 h
  | not operand position ih =>
    exact List.forall_mem_append.2 ⟨ih (succeeds_of_not h), List.forall_mem_singleton.2 h⟩
  | binary op left right position ihleft ihright =>
    obtain ⟨hleft, hright⟩ := succeeds_of_binary h
    exact List.forall_mem_append.2 ⟨ihleft hleft,
      List.forall_mem_append.2 ⟨ihright hright, List.forall_mem_singleton.2 h⟩⟩

section
variable {parts : List Expr} {fault : Diagnostic}

theorem firstFails_singleton {e : Expr} (h : e.eval store = .error fault) :
    FirstFails store [e] fault :=
  ⟨[], e, [], rfl, fun _ hmem => (List.not_mem_nil hmem).elim, h⟩

/-- What follows the first failure is of no account. -/
theorem FirstFails.append (h : FirstFails store parts fault) (rest : List Expr) :
    FirstFails store (parts ++ rest) fault := by
  obtain ⟨front, first, back, rfl, hfront, hfirst⟩ := h
  exact ⟨front, first, back ++ rest, by rw [List.append_assoc, List.cons_append], hfront, hfirst⟩

/-- The first failure stays the first behind what succeeds. -/
theorem FirstFails.behind (h : FirstFails store parts fault) {done : List Expr}
    (hdone : ∀ part ∈ done, part.Succeeds store) : FirstFails store (done ++ parts) fault := by
  obtain ⟨front, first, back, rfl, hfront, hfirst⟩ := h
  exact ⟨done ++ front, first, back, by rw [List.append_assoc],
    List.forall_mem_append.2 ⟨hdone, hfront⟩, hfirst⟩

/-- The fault of an expression is that of the first sub-expression that fails. -/
theorem firstFails_of_eval {e : Expr} (h : e.eval store = .error fault) :
    FirstFails store e.postorder fault := by
  induction e with
  | int | string | bool | var => exact firstFails_singleton h
  | not operand position ih =>
    cases hoperand : operand.eval store with
    | error fault' =>
      obtain rfl := Except.error.inj ((eval_not_of_error hoperand position).symm.trans h)
      exact (ih hoperand).append _
    | ok a => exact (firstFails_singleton h).behind (succeeds_of_mem_postorder ⟨a, hoperand⟩)
  | binary op left right position ihleft ihright =>
    cases hleft : left.eval store with
    | error fault' =>
      have heval := eval_binary_of_left_error hleft op right position
      obtain rfl := Except.error.inj (heval.symm.trans h)
      exact (ihleft hleft).append _
    | ok a =>
      refine FirstFails.behind ?_ (succeeds_of_mem_postorder ⟨a, hleft⟩)
      cases hright : right.eval store with
      | error fault' =>
        have heval := eval_binary_of_right_error ⟨a, hleft⟩ hright op position
        obtain rfl := Except.error.inj (heval.symm.trans h)
        exact (ihright hright).append _
      | ok b => exact (firstFails_singleton h).behind (succeeds_of_mem_postorder ⟨b, hright⟩)

end

/-- A fault that has a place is not moved to another one. -/
theorem orAt_of_eval {e : Expr} (hplaces : ∀ position ∈ e.places, 1 ≤ position.line)
    {fault : Diagnostic} (h : e.eval store = .error fault) (position : Position) :
    fault.orAt position = fault := by
  have hline := hplaces fault.position (failsAt_eval e store fault h)
  exact if_neg (Nat.ne_of_gt hline)

/-- Evaluation is strict: where a sub-expression fails, the expression fails.  It goes from left to
right: an expression that fails does so with the fault that the first of its sub-expressions to
fail, in the order of evaluation, gives on its own, and if its places are known, placing that fault
elsewhere leaves it as it is. -/
theorem eval_fails_as_first (store : Store) (e : Expr) :
    (∀ part, .expr part ∈ e.nodes → (∃ fault, part.eval store = .error fault) →
      ∃ fault, e.eval store = .error fault) ∧
    ∀ fault, e.eval store = .error fault → FirstFails store e.postorder fault ∧
      ((∀ position ∈ e.places, 1 ≤ position.line) → ∀ position, fault.orAt position = fault) := by
  refine ⟨fun part hpart hfails => ?_, fun fault hfault => ?_⟩
  · obtain ⟨fault, hfault⟩ := hfails
    cases heval : e.eval store with
    | error fault' => exact ⟨fault', rfl⟩
    | ok value =>
      obtain ⟨a, ha⟩ := succeeds_of_mem_postorder ⟨value, heval⟩ part (mem_postorder_iff.2 hpart)
      rw [hfault] at ha
      cases ha
  · exact ⟨firstFails_of_eval hfault, fun hplaces => orAt_of_eval hplaces hfault⟩

/-- In `(b & 1 / 0) + !"yes"` the division fails behind a false operand, and `!` is not reached. -/
theorem eval_fails_as_first_behind_false :
    let quotient := binary .div (int 1) (int 0) ⟨1, 8⟩
    let conjunction := binary .and (var ⟨"b", some .bool, ⟨1, 2⟩⟩) quotient ⟨1, 4⟩
    let e := binary .add conjunction (not (string "yes") ⟨1, 15⟩) ⟨1, 13⟩
    let store := Store.empty.declare "b" (.bool false)
    let fault := Diagnostic.of .divisionByZero ⟨1, 8⟩
    (∃ fault, e.eval store = .error fault) ∧ FirstFails store e.postorder fault ∧
      ∀ position, fault.orAt position = fault := by
  intro quotient conjunction e store fault
  have hquotient : quotient.eval store = .error fault := by decide +kernel
  have heval : e.eval store = .error fault := by decide +kernel
  obtain ⟨hstrict, hfirst⟩ := eval_fails_as_first store e
  obtain ⟨hfails, hplaced⟩ := hfirst fault heval
  exact ⟨hstrict quotient (by decide +kernel) ⟨fault, hquotient⟩, hfails,
    hplaced (by decide +kernel)⟩

end Expr

end MiniPL
