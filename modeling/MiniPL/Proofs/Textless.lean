import MiniPL.Proofs.Building
import MiniPL.Proofs.Typing

/-!
# Programs without text

Where neither the tokens nor the known types have anything to do with text, the grammar builds trees
without text, even where it takes tokens that could not be classified for others
(`Parser.GrammarInvariant.textless`).  On a store without text every conversion of such a program
has a value, so that it fails only at a name that is not bound or at a division
(`Step.Textless.safe_run`).

Main statement: `textless_run`.
-/

namespace MiniPL

/-! ### Trees without text -/

/-- The kinds of tokens that write a text, declare one or read one. -/
def TokenKind.IsTextual (kind : TokenKind) : Prop :=
  kind = .stringLiteral ∨ kind = .keyword .string ∨ kind = .keyword .read

instance (kind : TokenKind) : Decidable kind.IsTextual :=
  inferInstanceAs (Decidable (_ ∨ _ ∨ _))

/-- No name has the type of texts. -/
def TypeTable.Textless (types : TypeTable) : Prop :=
  ∀ name, types name ≠ some .string

theorem TypeTable.Textless.declare {types : TypeTable} (h : types.Textless) (name : String)
    {ty : ValueType} (hty : ty ≠ .string) : (types.declare name ty).Textless := by
  intro other
  unfold TypeTable.declare
  split
  · exact fun heq => hty (Option.some.inj heq)
  · exact h other

/-- An expression without string literals and without mentions that are tagged as text. -/
def Expr.Textless : Expr → Prop
  | string _ => False
  | var identifier => identifier.ty ≠ some .string
  | not operand _ => operand.Textless
  | binary _ left right _ => left.Textless ∧ right.Textless
  | _ => True

/-- A statement, apart from its body, that does nothing with texts. -/
def Statement.Textless : Statement → Prop
  | .declaration _ _ ty initializer => ty ≠ .string ∧ ∀ e, initializer = some e → e.Textless
  | .assignment _ value => value.Textless
  | .loop _ start stop _ => start.Textless ∧ stop.Textless
  | .print value _ => value.Textless
  | .read _ => False
  | .assert condition _ => condition.Textless

namespace Parser

/-- No token still to be read and no known type has to do with texts. -/
structure State.Textless (s : State) : Prop where
  rest : ∀ token ∈ s.rest, ¬ token.kind.IsTextual
  types : s.types.Textless

theorem State.Textless.current {s : State} (h : s.Textless) : ¬ s.current.kind.IsTextual := by
  cases hrest : s.rest with
  | nil =>
    rw [kind_current_of_nil hrest]
    decide
  | cons token rest =>
    rw [current_eq hrest]
    exact h.rest token (hrest ▸ List.mem_cons_self)

/-- Nothing has to do with texts. -/
def GrammarInvariant.textless : GrammarInvariant where
  state s := s.Textless
  taken _ := True
  fault _ := True
  type ty := ty ≠ .string
  identifier target := target.ty ≠ some .string
  expr e := e.Textless
  statement v := ∀ w ∈ v.allStatements, w.Textless
  taken_current _ := trivial
  taken_standIn _ _ := trivial
  fault_of_taken _ _ := trivial
  state_skipTo hs hrest := ⟨fun token hmem => hs.rest token (hrest.subset hmem), hs.types⟩
  state_report hs _ := ⟨hs.rest, hs.types⟩
  state_declare hs name hty := ⟨hs.rest, hs.types.declare name hty⟩
  type_int := by decide
  type_bool := by decide
  type_string hs hkind := absurd (.inr (.inl hkind)) hs.current
  identifier_reference hs _ := hs.types _
  expr_int _ := trivial
  expr_bool _ := trivial
  expr_string hs hkind := absurd (.inl hkind) hs.current
  expr_var h := h
  expr_not _ hoperand := hoperand
  expr_binary _ _ hleft hright := ⟨hleft, hright⟩
  declaration _ hty hinitializer :=
    List.forall_mem_singleton.2 ⟨hty, hinitializer⟩
  assignment _ hvalue := List.forall_mem_singleton.2 hvalue
  loop _ hstart hstop hbody := by
    refine List.forall_mem_cons.2 ⟨⟨hstart, hstop⟩, fun w hw => ?_⟩
    obtain ⟨v, hv, hw⟩ := Block.mem_allStatements_iff.1 hw
    exact hbody v hv w hw
  print _ hvalue := List.forall_mem_singleton.2 hvalue
  read hs hkind _ := absurd (.inr (.inr hkind)) hs.current
  assertion _ hcondition := List.forall_mem_singleton.2 hcondition

/-- What is read from tokens without text does nothing with texts, clean or not. -/
theorem textless_parseTokens {tokens : List Token} {known : TypeTable}
    (htokens : ∀ token ∈ tokens, ¬ token.kind.IsTextual) (hknown : known.Textless) :
    ∀ w ∈ Block.allStatements (parseTokens tokens known).program.statements, w.Textless := by
  have hinitial : (State.initial known tokens).Textless :=
    ⟨fun token hmem => htokens token ((List.takeWhile_prefix _).subset hmem), hknown⟩
  intro w hw
  obtain ⟨v, hv, hw⟩ := Block.mem_allStatements_iff.1 hw
  exact (GrammarInvariant.textless.block false _ hinitial).2 v hv w hw

end Parser

/-! ### The values of expressions without text -/

/-- A value that is no text. -/
def Value.Textless (value : Value) : Prop :=
  value.ty ≠ .string

/-- The kinds of faults that a program without text can meet. -/
def ErrorKind.IsTextless (kind : ErrorKind) : Prop :=
  kind = .undefinedVariable ∨ kind = .divisionByZero ∨ kind = .overflow

section
variable {α β : Type} {good : α → Prop} {good' : β → Prop}

/-- The computation gives a good value, or a fault of a name or a division. -/
def Computes (x : Except Diagnostic α) (good : α → Prop) : Prop :=
  match x with
  | .ok a => good a
  | .error fault => fault.kind.IsTextless

theorem Computes.bind {x : Except Diagnostic α} {f : α → Except Diagnostic β}
    (hx : Computes x good) (hf : ∀ a, good a → Computes (f a) good') :
    Computes (x >>= f) good' := by
  cases x with
  | ok a => exact hf a hx
  | error fault => exact hx

/-- An operation that succeeds is no fault at any place. -/
theorem computes_placed {x : Except Cause α} {a : α} (hx : x = .ok a) (h : good a)
    (position : Position) : Computes (placed position x) good := by
  rw [hx]
  exact h

end

namespace Value

variable {value : Value}

theorem textless_int (n : Int32) : (int n).Textless := by
  intro h
  cases h

theorem textless_bool (b : Bool) : (bool b).Textless := by
  intro h
  cases h

theorem Textless.exists_toInt (h : value.Textless) : ∃ n, value.toInt = .ok n := by
  cases value with
  | int n => exact ⟨n, rfl⟩
  | bool b => exact ⟨_, rfl⟩
  | string s => exact absurd rfl h

theorem Textless.exists_toBool (h : value.Textless) : ∃ b, value.toBool = .ok b := by
  cases value with
  | int n => exact ⟨_, rfl⟩
  | bool b => exact ⟨b, rfl⟩
  | string s => exact absurd rfl h

/-- What is no text can be converted to every other type. -/
theorem Textless.exists_coerce (h : value.Textless) {ty : ValueType} (hty : ty ≠ .string) :
    ∃ converted : Value, value.coerce ty = .ok converted ∧ converted.Textless := by
  cases ty with
  | string => exact absurd rfl hty
  | int =>
    obtain ⟨n, hn⟩ := h.exists_toInt
    exact ⟨int n, by rw [coerce, hn]; rfl, textless_int n⟩
  | bool =>
    obtain ⟨b, hb⟩ := h.exists_toBool
    exact ⟨bool b, by rw [coerce, hb]; rfl, textless_bool b⟩

end Value

/-- On numbers and truth values, an operator gives another one, or it divides and fails. -/
theorem BinaryOp.computes_apply (op : BinaryOp) {left right : Value} (hleft : left.Textless)
    (hright : right.Textless) (position : Position) :
    Computes (placed position (op.apply false left right)) Value.Textless := by
  obtain ⟨a, ha⟩ := hleft.exists_toInt
  obtain ⟨b, hb⟩ := hright.exists_toInt
  obtain ⟨c, hc⟩ := hleft.exists_toBool
  obtain ⟨d, hd⟩ := hright.exists_toBool
  cases op with
  | add | sub | mul =>
    rw [apply, ha, hb]
    exact Value.textless_int _
  | less | equal =>
    rw [apply, ha, hb]
    exact Value.textless_bool _
  | and =>
    rw [apply, hc, hd]
    exact Value.textless_bool _
  | div =>
    rw [apply, ha, hb]
    show Computes (placed position (do return Value.int (← quotient a b))) _
    unfold quotient
    split
    · exact .inr (.inl rfl)
    split
    · exact .inr (.inr rfl)
    · exact Value.textless_int _

namespace Expr

theorem bothText_eq_false {left right : Expr} (h : left.tag ≠ some .string) :
    left.bothText right = false := by
  rw [bothText, beq_eq_false_iff_ne.2 h, Bool.false_and]

theorem Textless.tag_ne {e : Expr} (h : e.Textless) : e.tag ≠ some .string := by
  induction e with
  | int | bool | not =>
    intro htag
    cases htag
  | string => exact h.elim
  | var => exact h
  | binary op left right position ihleft =>
    rw [tag_binary, bothText_eq_false (ihleft h.1)]
    cases op <;>
    · intro htag
      cases htag

/-- An expression without text has a value that is none, or meets an unbound name or a division. -/
theorem Textless.computes_eval {e : Expr} (h : e.Textless) {store : Store}
    (hstore : store.types.Textless) : Computes (e.eval store) Value.Textless := by
  induction e with
  | int n => exact Value.textless_int n
  | bool b => exact Value.textless_bool b
  | string => exact h.elim
  | var identifier =>
    rw [eval, Store.lookup]
    split
    · rename_i value hget
      intro hty
      exact hstore identifier.name (by rw [Store.types, Store.typeOf?, hget, ← hty]; rfl)
    · exact .inl rfl
  | not operand position ih =>
    rw [eval]
    refine (ih h).bind fun value hvalue => ?_
    obtain ⟨b, hb⟩ := hvalue.exists_toBool
    have htruth : Computes (placed position value.toBool) fun _ => True :=
      computes_placed hb trivial position
    exact htruth.bind fun truth _ => Value.textless_int _
  | binary op left right position ihleft ihright =>
    obtain ⟨hleft, hright⟩ := h
    rw [eval, bothText_eq_false hleft.tag_ne]
    exact (ihleft hleft).bind fun a ha => (ihright hright).bind fun b hb =>
      op.computes_apply ha hb position

end Expr

/-! ### Runs without text -/

/-- No variable holds a text, and the output takes what is written. -/
structure Machine.Textless (m : Machine) : Prop where
  store : m.store.types.Textless
  output : m.output.fault = none

namespace Run

variable {α β : Type} {good : α → Prop} {good' : β → Prop}

/-- From a machine without text, the run leads to another one, with a good value or with a fault of
a name or a division. -/
def Safe (x : Run α) (good : α → Prop) : Prop :=
  ∀ m, m.Textless →
    match x m with
    | .ok a m' => m'.Textless ∧ good a
    | .error fault m' => m'.Textless ∧ fault.kind.IsTextless

theorem safe_pure {a : α} (h : good a) : (pure a : Run α).Safe good :=
  fun _ hm => ⟨hm, h⟩

theorem safe_lift {x : Except Diagnostic α} (h : Computes x good) : (lift x).Safe good := by
  cases x <;> exact fun _ hm => ⟨hm, h⟩

theorem Safe.bind {x : Run α} {f : α → Run β} (hx : x.Safe good)
    (hf : ∀ a, good a → (f a).Safe good') : (x >>= f).Safe good' := by
  intro m hm
  have hfirst := hx m hm
  cases h : x m with
  | ok a m' =>
    rw [h] at hfirst
    rw [bind_eq_of_ok h]
    exact hf a hfirst.2 m' hfirst.1
  | error fault m' =>
    rw [h] at hfirst
    rw [bind_eq_of_error h]
    exact hfirst

theorem safe_eval {e : Expr} (h : e.Textless) : (eval e).Safe Value.Textless :=
  fun m hm => safe_lift (h.computes_eval hm.store) m hm

theorem safe_declare (name : String) {value : Value} (h : value.Textless) :
    (declare name value).Safe fun _ => True := by
  intro m hm
  refine ⟨⟨?_, hm.output⟩, trivial⟩
  show (m.store.declare name value).types.Textless
  rw [Store.types_declare]
  exact hm.store.declare name h

theorem safe_store (target : Identifier) {value : Value} (h : value.Textless) :
    (store target value).Safe fun _ => True := by
  intro m hm
  cases hget : m.store.get? target.name with
  | none =>
    rw [store_of_get?_eq_none hget]
    exact ⟨hm, .inl rfl⟩
  | some old =>
    have hold : old.Textless := by
      intro hty
      exact hm.store target.name (by rw [Store.types, Store.typeOf?, hget, ← hty]; rfl)
    obtain ⟨converted, hcoerce, hconverted⟩ := h.exists_coerce hold
    rw [store_of_get?_eq_some hget, hcoerce]
    exact safe_declare target.name hconverted m hm

theorem safe_write (text : String) (position : Position) :
    (write text position).Safe fun _ => True := by
  intro m hm
  rw [write_eq, hm.output]
  exact ⟨⟨hm.store, hm.output⟩, trivial⟩

theorem safe_bound (counter : Identifier) {e : Expr} (h : e.Textless) :
    (bound counter e).Safe fun _ => True := by
  refine (safe_eval h).bind fun value hvalue => ?_
  obtain ⟨n, hn⟩ := hvalue.exists_toInt
  exact safe_lift (computes_placed hn trivial counter.position)

theorem safe_initialValue (position : Position) {ty : ValueType} (hty : ty ≠ .string)
    {initializer : Option Expr} (h : ∀ e, initializer = some e → e.Textless) :
    (initialValue position ty initializer).Safe Value.Textless := by
  cases initializer with
  | none =>
    apply safe_pure
    rw [Value.Textless, Value.ty_initial]
    exact hty
  | some e =>
    refine (safe_eval (h e rfl)).bind fun value hvalue => ?_
    obtain ⟨converted, hcoerce, hconverted⟩ := hvalue.exists_coerce hty
    exact safe_lift (computes_placed hcoerce hconverted position)

theorem safe_assertion {condition : Expr} (h : condition.Textless) (position : Position) :
    (Statement.assert condition position).exec.Safe fun _ => True := by
  intro m hm
  have hcheck : Computes (checkAssertion m.store condition position) fun _ => True := by
    refine (h.computes_eval hm.store).bind fun value hvalue => ?_
    obtain ⟨b, hb⟩ := hvalue.exists_toBool
    exact computes_placed hb trivial position
  have hrun : (Statement.assert condition position).exec m =
      (do
        let holds ← lift (checkAssertion m.store condition position)
        write (assertionReport holds) position : Run Unit) m := by
    rw [Statement.exec]
    rfl
  rw [hrun]
  exact (safe_lift hcheck).bind (fun holds _ => safe_write _ position) m hm

end Run

namespace Step

/-- A step that does nothing with texts. -/
def Textless : Step → Prop
  | simple statement _ => statement.Textless
  | bound _ e => e.Textless
  | count _ _ => True

theorem IsOf.textless {step : Step} {v : Statement} (h : step.IsOf v) (hv : v.Textless) :
    step.Textless := by
  cases h with
  | simple => exact hv
  | start => exact hv.1
  | stop => exact hv.2
  | count => exact trivial

/-- What a step without text can do. -/
theorem Textless.safe_run {step : Step} (h : step.Textless) : step.run.Safe fun _ => True := by
  cases step with
  | bound counter e => exact (Run.safe_bound counter h).bind fun _ _ => Run.safe_pure trivial
  | count counter value => exact Run.safe_store counter (Value.textless_int value)
  | simple statement hloop =>
    rw [run]
    cases statement with
    | loop => cases hloop
    | read => exact h.elim
    | declaration name position ty initializer =>
      rw [Run.exec_declaration]
      exact (Run.safe_initialValue position h.1 h.2).bind fun value hvalue =>
        Run.safe_declare name hvalue
    | assignment target value =>
      rw [Statement.exec]
      exact (Run.safe_eval h).bind fun v hv => Run.safe_store target hv
    | print value position =>
      rw [Statement.exec]
      exact (Run.safe_eval h).bind fun v _ => Run.safe_write v.text position
    | assert condition position => exact Run.safe_assertion h position

theorem Textless.textless_after {step : Step} (h : step.Textless) {m : Machine}
    (hm : m.Textless) : (step.run.after m).Textless := by
  have hsafe := h.safe_run m hm
  unfold Run.after
  cases hrun : step.run m with
  | ok a m' =>
    rw [hrun] at hsafe
    exact hsafe.1
  | error fault m' =>
    rw [hrun] at hsafe
    exact hsafe.1

end Step

/-- A program whose source and known types have nothing to do with texts, started without texts and
with an output that takes everything, never fails with a type error or at input or output: at most
it mentions an unbound name, divides by zero or overflows in a division.  No variable ever holds a
text, neither while it runs nor at its end or fault. -/
theorem textless_run (source : String) (known : TypeTable) (m : Machine)
    (htokens : ∀ token ∈ tokenize source, ¬ token.kind.IsTextual) (hknown : known.Textless)
    (hstore : m.store.types.Textless) (houtput : m.output.fault = none) :
    let program := (parseText source known).program
    (∀ moment ∈ program.moments m, moment.machine.store.types.Textless) ∧
      (program.exec.after m).store.types.Textless ∧
      ∀ fault m', program.exec m = .error fault m' →
        fault.kind = .undefinedVariable ∨ fault.kind = .divisionByZero ∨
          fault.kind = .overflow := by
  intro program
  have hstatements : ∀ w ∈ Block.allStatements program.statements, w.Textless := by
    show ∀ w ∈ Block.allStatements (parseText source known).program.statements, w.Textless
    rw [Parser.parseText_eq]
    exact Parser.textless_parseTokens htokens hknown
  have hbuilt : (Block.log program.statements).Built Step.Textless :=
    Block.log_built _ fun w hw _ hstep => hstep.textless (hstatements w hw)
  have hm : m.Textless := ⟨hstore, houtput⟩
  obtain ⟨hmoments, hafter⟩ := hbuilt.keeps (fun _ _ h hm => h.textless_after hm) m hm
  rw [Block.run_log] at hafter
  refine ⟨fun moment hmem => (hmoments moment hmem).1.store, hafter.store, fun fault m' hrun => ?_⟩
  obtain ⟨moment, hmem, hstep⟩ := hbuilt.exists_of_error (by rw [Block.run_log]; exact hrun)
  obtain ⟨hmachine, htextless⟩ := hmoments moment hmem
  have hsafe := htextless.safe_run _ hmachine
  rw [hstep] at hsafe
  exact hsafe.2

/-- A `?` that stands in for the colon of a declaration, and a loop that divides by zero in its
second round, behind a statement that is left out. -/
theorem textless_run_with_reports :
    let source := "var b ? bool := 2; x := ; for n in 0..2 do b := 6 / (1 - n); end for;"
    let known := TypeTable.empty.declare "n" .int
    let m : Machine := ⟨Store.empty.declare "n" (.int 0), .empty, {}⟩
    let parsed := parseText source known
    parsed.isClean = false ∧ known.Textless ∧ m.store.types.Textless ∧
      ∃ fault m', parsed.program.exec m = .error fault m' ∧
        m'.store.types.Textless ∧
        (fault.kind = .undefinedVariable ∨ fault.kind = .divisionByZero ∨
          fault.kind = .overflow) := by
  intro source known m parsed
  have hempty : TypeTable.empty.Textless := fun _ h => nomatch h
  have hknown : known.Textless := hempty.declare "n" (by decide)
  have hstore : m.store.types.Textless := by
    have hnone : Store.empty.types.Textless := fun _ h => nomatch h
    show (Store.empty.declare "n" (.int 0)).types.Textless
    rw [Store.types_declare]
    exact hnone.declare "n" (by decide)
  have htokens : ∀ token ∈ tokenize source, ¬ token.kind.IsTextual := by decide +kernel
  obtain ⟨-, hafter, hkind⟩ := textless_run source known m htokens hknown hstore rfl
  have hfails : parsed.program.exec.run' m = none := by decide +kernel
  refine ⟨by decide +kernel, hknown, hstore, ?_⟩
  cases hrun : parsed.program.exec m with
  | ok value m' =>
    have hvalue : parsed.program.exec.run' m = EStateM.run' (fun _ => parsed.program.exec m) m :=
      rfl
    rw [hvalue, hrun] at hfails
    cases hfails
  | error fault m' =>
    rw [Run.after_eq_of_error hrun] at hafter
    exact ⟨fault, m', rfl, hafter, hkind fault m' hrun⟩

end MiniPL
