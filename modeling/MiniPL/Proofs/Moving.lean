import MiniPL.Proofs.Grammar
import MiniPL.Proofs.Cutting
import MiniPL.Proofs.Steps

/-!
# Programs at other places

Places go through reading and running without being looked at.  Moved tokens are the same phrases,
with trees moved alike (`Grammar.IsBlock.moved`), and a moved program runs as before, except that
its faults are moved (`Block.exec_moved`).
-/

namespace MiniPL

/-! ### Trees at other places -/

/-- A mention with its place changed. -/
def Identifier.moved (place : Position → Position) (identifier : Identifier) : Identifier :=
  identifier.relabel id place

/-- An expression with its places changed. -/
def Expr.moved (place : Position → Position) (e : Expr) : Expr :=
  e.relabel id place

/-- A statement with its places changed. -/
def Statement.moved (place : Position → Position) (v : Statement) : Statement :=
  v.relabel id place

/-- A block with its places changed. -/
def Block.moved (place : Position → Position) (b : Block) : Block :=
  b.relabel id place

namespace Grammar

variable {types types' : TypeTable} {tokens : List Token}

theorem Derives.moved {phrase : Phrase} {e : Expr} (h : Derives types phrase tokens e)
    (place : Position → Position) :
    Derives types phrase (tokens.map (Token.moved place)) (e.moved place) := by
  induction h with
  | term _ ih => exact .term ih
  | factor _ ih => exact .factor ih
  | sum hop hsign _ _ ihleft ihright =>
    rw [List.map_append, List.map_cons]
    exact .sum hop hsign ihleft ihright
  | product hop hsign _ _ ihleft ihright =>
    rw [List.map_append, List.map_cons]
    exact .product hop hsign ihleft ihright
  | int hkind hnumber hle => exact .int hkind hnumber hle
  | string hkind => exact .string hkind
  | bool hkind => exact .bool hkind
  | var hkind => exact .var hkind
  | parens hopening _ hclosing ih =>
    rw [List.map_append, List.map_cons]
    exact .parens hopening ih hclosing
  | not hsign _ ih =>
    rw [List.map_cons]
    exact .not hsign ih

theorem IsSimple.moved {v : Statement} (h : IsSimple types tokens v types')
    (place : Position → Position) :
    IsSimple types (tokens.map (Token.moved place)) (v.moved place) types' := by
  cases h with
  | declaration hvar hname hcolon htype hsemicolon =>
    exact .declaration hvar hname hcolon htype hsemicolon
  | initialized hvar hname hcolon htype hassign h hsemicolon =>
    rw [List.map_append]
    exact .initialized hvar hname hcolon htype hassign (h.moved place) hsemicolon
  | assignment hname hassign h hsemicolon =>
    rw [List.map_append]
    exact .assignment hname hassign (h.moved place) hsemicolon
  | print hprint h hsemicolon =>
    rw [List.map_append]
    exact .print hprint (h.moved place) hsemicolon
  | read hread hname hsemicolon => exact .read hread hname hsemicolon
  | assert hassert hopening h hclosing hsemicolon =>
    rw [List.map_append]
    exact .assert hassert hopening (h.moved place) hclosing hsemicolon

theorem IsHeader.moved {counter : Identifier} {start stop : Expr}
    (h : IsHeader types tokens counter start stop) (place : Position → Position) :
    IsHeader types (tokens.map (Token.moved place)) (counter.moved place) (start.moved place)
      (stop.moved place) := by
  cases h with
  | mk hname hin hstart hrange hstop hdo =>
    simp only [List.map_append, List.map_cons, List.map_nil]
    exact .mk hname hin (hstart.moved place) hrange (hstop.moved place) hdo

theorem IsEnd.moved (h : IsEnd tokens) (place : Position → Position) :
    IsEnd (tokens.map (Token.moved place)) := by
  cases h with
  | mk hend hfor hsemicolon => exact .mk hend hfor hsemicolon

/-- Moved tokens are the same statements, moved. -/
theorem IsBlock.moved {b : Block} (h : IsBlock types tokens b types')
    (place : Position → Position) :
    IsBlock types (tokens.map (Token.moved place)) (b.moved place) types' := by
  induction h with
  | nil => exact .nil
  | simple h _ ih =>
    rw [List.map_append]
    exact .simple (h.moved place) ih
  | loop hfor hheader _ hend _ ihbody ih =>
    simp only [List.map_append, List.map_cons]
    exact .loop hfor (hheader.moved place) ihbody (hend.moved place) ih

end Grammar

/-! ### Runs at other places -/

/-- A diagnostic with its place changed. -/
def Diagnostic.moved (place : Position → Position) (fault : Diagnostic) : Diagnostic :=
  { fault with position := place fault.position }

section
variable {α β : Type} (place : Position → Position)

theorem mapError_bind (x : Except Diagnostic α) (f : α → Except Diagnostic β) :
    (x >>= f).mapError (Diagnostic.moved place) =
      x.mapError (Diagnostic.moved place) >>= fun a =>
        (f a).mapError (Diagnostic.moved place) := by
  cases x <;> rfl

theorem placed_moved (position : Position) (x : Except Cause α) :
    placed (place position) x = (placed position x).mapError (Diagnostic.moved place) := by
  cases x <;> rfl

theorem Store.lookup_moved (store : Store) (name : String) (position : Position) :
    store.lookup name (place position) =
      (store.lookup name position).mapError (Diagnostic.moved place) := by
  unfold Store.lookup
  cases store.get? name <;> rfl

/-- Places do not bear on type tags. -/
theorem Expr.tag_moved (e : Expr) : (e.moved place).tag = e.tag := by
  induction e with
  | int | string | bool | var | not => rfl
  | binary op left right position ihleft ihright =>
    show (Expr.binary op (left.moved place) (right.moved place) (place position)).tag = _
    cases op with
    | add => simp only [Expr.tag, ihleft, ihright]
    | _ => rfl

theorem Expr.eval_moved (e : Expr) (store : Store) :
    (e.moved place).eval store = (e.eval store).mapError (Diagnostic.moved place) := by
  induction e with
  | int | string | bool => rfl
  | var identifier => exact store.lookup_moved place identifier.name identifier.position
  | not operand position ih =>
    show (Expr.not (operand.moved place) (place position)).eval store = _
    rw [Expr.eval, Expr.eval, ih, mapError_bind]
    simp only [placed_moved, mapError_bind]
    rfl
  | binary op left right position ihleft ihright =>
    show (Expr.binary op (left.moved place) (right.moved place) (place position)).eval store = _
    have hboth : (left.moved place).bothText (right.moved place) = left.bothText right := by
      rw [Expr.bothText, Expr.bothText, Expr.tag_moved, Expr.tag_moved]
    rw [Expr.eval, Expr.eval, ihleft, ihright, hboth]
    simp only [placed_moved, mapError_bind]

end

namespace Run

variable {α β : Type} (place : Position → Position)

/-- A run whose faults have their places changed. -/
def moved (x : Run α) : Run α := fun m =>
  match x m with
  | .ok a m' => .ok a m'
  | .error fault m' => .error (fault.moved place) m'

@[simp] theorem moved_get : moved place get = get := rfl

@[simp] theorem moved_set (m : Machine) : moved place (set m) = set m := rfl

@[simp] theorem moved_declare (name : String) (value : Value) :
    moved place (declare name value) = declare name value := rfl

theorem moved_bind (x : Run α) (f : α → Run β) :
    moved place (x >>= f) = moved place x >>= fun a => moved place (f a) := by
  funext m
  cases h : x m with
  | ok a m' =>
    have hmoved : moved place x m = .ok a m' := by rw [moved, h]
    rw [bind_eq_of_ok hmoved, moved, bind_eq_of_ok h, ← moved]
  | error fault m' =>
    have hmoved : moved place x m = .error (fault.moved place) m' := by rw [moved, h]
    rw [bind_eq_of_error hmoved, moved, bind_eq_of_error h]

theorem moved_lift (x : Except Diagnostic α) :
    moved place (lift x) = lift (x.mapError (Diagnostic.moved place)) := by
  cases x <;> rfl

theorem eval_moved (e : Expr) : eval (e.moved place) = moved place (eval e) := by
  unfold eval
  simp only [moved_bind, moved_get, moved_lift, Expr.eval_moved]

theorem bound_moved (counter : Identifier) (e : Expr) :
    bound (counter.moved place) (e.moved place) = moved place (bound counter e) := by
  unfold bound
  simp only [moved_bind, moved_lift, eval_moved, ← placed_moved]
  rfl

theorem store_moved (target : Identifier) (value : Value) :
    store (target.moved place) value = moved place (store target value) := by
  unfold store
  simp only [moved_bind, moved_get, moved_lift, moved_declare, ← placed_moved,
    ← Store.lookup_moved]
  rfl

theorem write_moved (text : String) (position : Position) :
    write text (place position) = moved place (write text position) := by
  unfold write
  rw [moved_bind, moved_get]
  congr 1
  funext m
  cases m.output.fault with
  | none => rfl
  | some message => cases text.isEmpty <;> rfl

theorem nextWord_moved (position : Position) :
    nextWord (place position) = moved place (nextWord position) := by
  unfold nextWord
  simp only [moved_bind, moved_get, moved_set, moved_lift, ← placed_moved]

theorem rounds_moved (round : Int32 → Run Unit) (n : Nat) (i : Int32) :
    rounds (fun j => moved place (round j)) n i = moved place (rounds round n i) := by
  induction n generalizing i with
  | zero => rfl
  | succ n ih => rw [rounds, rounds, moved_bind, ih]

end Run

theorem checkAssertion_moved (place : Position → Position) (store : Store) (condition : Expr)
    (position : Position) :
    checkAssertion store (condition.moved place) (place position) =
      (checkAssertion store condition position).mapError (Diagnostic.moved place) := by
  unfold checkAssertion
  rw [mapError_bind, Expr.eval_moved]
  simp only [placed_moved]

mutual

/-- A moved statement runs as before, except that its faults are moved. -/
theorem Statement.exec_moved (place : Position → Position) :
    ∀ v : Statement, (v.moved place).exec = v.exec.moved place
  | .declaration name position ty none => rfl
  | .declaration name position ty (some e) => by
    show (Statement.declaration name (place position) ty (some (e.moved place))).exec = _
    rw [Statement.exec, Statement.exec]
    simp only [Run.moved_bind, Run.moved_lift, Run.moved_declare, Run.eval_moved, ← placed_moved]
  | .assignment target value => by
    show (Statement.assignment (target.moved place) (value.moved place)).exec = _
    rw [Statement.exec, Statement.exec]
    simp only [Run.moved_bind, Run.eval_moved, Run.store_moved]
  | .loop counter start stop body => by
    show (Statement.loop (counter.moved place) (start.moved place) (stop.moved place)
      (Block.moved place body)).exec = _
    rw [Statement.exec, Statement.exec]
    simp only [Run.moved_bind, Run.bound_moved, Run.store_moved, ← Run.rounds_moved,
      Block.exec_moved place body]
  | .print value position => by
    show (Statement.print (value.moved place) (place position)).exec = _
    rw [Statement.exec, Statement.exec]
    simp only [Run.moved_bind, Run.eval_moved, Run.write_moved]
  | .read target => by
    show (Statement.read (target.moved place)).exec = _
    rw [Statement.exec, Statement.exec]
    have hposition : (target.moved place).position = place target.position := rfl
    simp only [Run.moved_bind, Run.store_moved, Run.nextWord_moved, hposition]
  | .assert condition position => by
    show (Statement.assert (condition.moved place) (place position)).exec = _
    rw [Statement.exec, Statement.exec]
    simp only [Run.moved_bind, Run.moved_get, Run.moved_lift, Run.write_moved,
      checkAssertion_moved]

/-- A moved block runs as before, except that its faults are moved. -/
theorem Block.exec_moved (place : Position → Position) :
    ∀ b : Block, Block.exec (b.moved place) = (Block.exec b).moved place
  | [] => rfl
  | v :: rest => by
    show Block.exec (v.moved place :: Block.moved place rest) = _
    rw [Block.exec, Block.exec, Run.moved_bind, v.exec_moved, Block.exec_moved place rest]

end

end MiniPL
