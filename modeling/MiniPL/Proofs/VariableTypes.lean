import MiniPL.Proofs.Steps

/-!
# Variables keep their types

A step binds at most one name, its target.  Only a declaration gives a variable a type: storing
converts the value to the type that the variable has, and a declaration that fails has bound
nothing.

Main statement: `Step.changes_after`, which says what a step can do to the store.  Its consequences
for types are `Step.preserves_types` for the steps that declare nothing, and `Step.types_after` for
any step; `Run.types_of_declaration` tells apart how a declaration ends.
-/

namespace MiniPL

/-- Declaring a name at the type that it has already changes nothing. -/
theorem TypeTable.declare_of_eq_some {types : TypeTable} {name : String} {ty : ValueType}
    (h : types name = some ty) : types.declare name ty = types := by
  funext other
  unfold declare
  split
  · rename_i hname
    rw [hname, h]
  · rfl

namespace Run

variable {α β γ : Type} {view : Machine → γ}

theorem after_bind (x : Run α) (f : α → Run β) (m : Machine) :
    (x >>= f).after m =
      match x m with
      | .ok a m' => (f a).after m'
      | .error _ m' => m' := by
  cases h : x m with
  | ok a m' => exact after_congr (bind_eq_of_ok h)
  | error fault m' => exact after_eq_of_error (bind_eq_of_error h)

/-- However the run ends, a view of the machine is as before. -/
def Preserves (x : Run α) (view : Machine → γ) : Prop :=
  ∀ m, view (x.after m) = view m

theorem preserves_pure (a : α) : (pure a : Run α).Preserves view :=
  fun _ => rfl

theorem preserves_lift (value : Except Diagnostic α) : (lift value).Preserves view := by
  cases value <;> exact fun _ => rfl

theorem Preserves.bind {x : Run α} {f : α → Run β} (hx : x.Preserves view)
    (hf : ∀ a, (f a).Preserves view) : (x >>= f).Preserves view := by
  intro m
  have hm := hx m
  rw [after_bind]
  cases h : x m with
  | ok a m' =>
    rw [after_eq_of_ok h] at hm
    exact (hf a m').trans hm
  | error fault m' =>
    rw [after_eq_of_error h] at hm
    exact hm

theorem preserves_eval (e : Expr) : (eval e).Preserves view :=
  fun m => preserves_lift (e.eval m.store) m

theorem preserves_bound (counter : Identifier) (e : Expr) : (bound counter e).Preserves view :=
  (preserves_eval e).bind fun _ => preserves_lift _

theorem write_eq (text : String) (position : Position) (m : Machine) :
    write text position m =
      match m.output.fault with
      | some message =>
        if text.isEmpty then .ok () m else .error (.of (.device message) position) m
      | none => .ok () { m with output.written := m.output.written ++ text } := by
  have hget : (get : Run Machine) m = .ok m m := rfl
  rw [write, bind_eq_of_ok hget]
  cases m.output.fault with
  | none => rfl
  | some message => cases text.isEmpty <;> rfl

theorem preserves_write (hview : ∀ (m : Machine) output, view { m with output } = view m)
    (text : String) (position : Position) : (write text position).Preserves view := by
  intro m
  rw [after, write_eq]
  cases m.output.fault with
  | none => exact hview m _
  | some message => cases text.isEmpty <;> rfl

theorem nextWord_eq (position : Position) (m : Machine) :
    nextWord position m =
      lift (placed position m.input.nextWord.1) { m with input := m.input.nextWord.2 } :=
  rfl

theorem preserves_nextWord (position : Position) :
    (nextWord position).Preserves Machine.store := by
  intro m
  have hlift : (lift (placed position m.input.nextWord.1)).Preserves Machine.store :=
    preserves_lift _
  rw [after_congr (nextWord_eq position m)]
  exact hlift _

theorem store_eq (target : Identifier) (value : Value) (m : Machine) :
    store target value m =
      (do
        let old ← lift (m.store.lookup target.name target.position)
        let converted ← lift (placed target.position (value.coerce old.ty))
        declare target.name converted : Run Unit) m :=
  rfl

/-- What becomes of storing a value in a variable that is bound. -/
theorem store_of_get?_eq_some {target : Identifier} {old : Value} {m : Machine}
    (h : m.store.get? target.name = some old) (value : Value) :
    store target value m =
      match value.coerce old.ty with
      | .ok converted => .ok () { m with store := m.store.declare target.name converted }
      | .error cause => .error (.of cause target.position) m := by
  have hlookup : m.store.lookup target.name target.position = .ok old := by
    rw [Store.lookup, h]
  rw [store_eq, hlookup]
  show (lift (placed target.position (value.coerce old.ty)) >>= declare target.name : Run Unit) m =
    _
  cases value.coerce old.ty <;> rfl

/-- Nothing can be stored in a variable that is not bound. -/
theorem store_of_get?_eq_none {target : Identifier} {m : Machine}
    (h : m.store.get? target.name = none) (value : Value) :
    store target value m = .error (m.store.undefined target.name target.position) m := by
  have hlookup : m.store.lookup target.name target.position =
      .error (m.store.undefined target.name target.position) := by
    rw [Store.lookup, h]
  rw [store_eq, hlookup]
  rfl

theorem preserves_get : (get : Run Machine).Preserves view :=
  fun _ => rfl

theorem preserves_declare (hview : ∀ (m : Machine) store, view { m with store } = view m)
    (name : String) (value : Value) : (declare name value).Preserves view :=
  fun m => hview m _

theorem preserves_store (hview : ∀ (m : Machine) store, view { m with store } = view m)
    (target : Identifier) (value : Value) : (store target value).Preserves view :=
  preserves_get.bind fun _ => (preserves_lift _).bind fun _ =>
    (preserves_lift _).bind fun _ => preserves_declare hview _ _

/-- What a declaration binds its name to. -/
def initialValue (position : Position) (ty : ValueType) (initializer : Option Expr) : Run Value :=
  match initializer with
  | some e => do lift (placed position ((← eval e).coerce ty))
  | none => pure (.initial ty)

theorem exec_declaration (name : String) (position : Position) (ty : ValueType)
    (initializer : Option Expr) :
    (Statement.declaration name position ty initializer).exec =
      initialValue position ty initializer >>= declare name := by
  cases initializer with
  | none => simp only [Statement.exec, initialValue]
  | some e => simp only [Statement.exec, initialValue, bind_assoc]

theorem preserves_initialValue (position : Position) (ty : ValueType) (initializer : Option Expr) :
    (initialValue position ty initializer).Preserves view := by
  cases initializer with
  | none => exact preserves_pure _
  | some e => exact (preserves_eval e).bind fun _ => preserves_lift _

theorem ty_of_initialValue {position : Position} {ty : ValueType} {initializer : Option Expr}
    {value : Value} {m m' : Machine}
    (h : initialValue position ty initializer m = .ok value m') : value.ty = ty := by
  cases initializer with
  | none =>
    cases h
    exact Value.ty_initial ty
  | some e =>
    cases heval : eval e m with
    | error fault m'' =>
      rw [initialValue, bind_eq_of_error heval] at h
      cases h
    | ok v m'' =>
      rw [initialValue, bind_eq_of_ok heval] at h
      cases hcoerce : v.coerce ty with
      | error cause =>
        rw [hcoerce] at h
        cases h
      | ok converted =>
        rw [hcoerce] at h
        cases h
        exact Value.ty_of_coerce hcoerce

/-- A declaration that is done has given the name its type; one that fails has bound nothing. -/
theorem types_of_declaration (name : String) (position : Position) (ty : ValueType)
    (initializer : Option Expr) (m : Machine) :
    match (Statement.declaration name position ty initializer).exec m with
    | .ok _ m' => m'.store.types = m.store.types.declare name ty
    | .error _ m' => m'.store = m.store := by
  have hkeeps : ((initialValue position ty initializer).after m).store = m.store :=
    preserves_initialValue position ty initializer m
  rw [exec_declaration]
  cases hvalue : initialValue position ty initializer m with
  | error fault m' =>
    rw [bind_eq_of_error hvalue]
    rwa [after_eq_of_error hvalue] at hkeeps
  | ok value m' =>
    rw [after_eq_of_ok hvalue] at hkeeps
    rw [bind_eq_of_ok hvalue, ← ty_of_initialValue hvalue, ← hkeeps]
    exact Store.types_declare _ _ _

end Run

/-! ### What a step does to the store -/

/-- The name that a statement stores to, apart from its body. -/
def Statement.target? : Statement → Option String
  | .declaration name _ _ _ => some name
  | .assignment target _ => some target.name
  | .loop counter _ _ _ => some counter.name
  | .read target => some target.name
  | .print _ _ | .assert _ _ => none

namespace Step

/-- The name that a step stores to. -/
def target? : Step → Option String
  | simple statement _ => statement.target?
  | bound _ _ => none
  | count counter _ => some counter.name

/-- What a step may make of a store: it stays, or one name is bound to a value of the type that the
name has already or that the step declares. -/
inductive Changes (step : Step) (before : Store) : Store → Prop
  | same : Changes step before before
  | bind {name : String} {value : Value} (htarget : step.target? = some name)
    (hty : before.typeOf? name = some value.ty ∨ step.declares? name = some value.ty) :
    Changes step before (before.declare name value)

end Step

namespace Run

variable {α β : Type}

/-- A run that first leaves the store alone changes it as the rest does. -/
theorem changes_bind {step : Step} {x : Run α} {f : α → Run β} (hx : x.Preserves Machine.store)
    (hf : ∀ a m, step.Changes m.store ((f a).after m).store) (m : Machine) :
    step.Changes m.store ((x >>= f).after m).store := by
  have hstore : (x.after m).store = m.store := hx m
  rw [after_bind]
  cases hrun : x m with
  | ok a m' =>
    rw [after_eq_of_ok hrun] at hstore
    rw [← hstore]
    exact hf a m'
  | error fault m' =>
    rw [after_eq_of_error hrun] at hstore
    dsimp only
    rw [hstore]
    exact .same

theorem changes_of_preserves {step : Step} {x : Run α} (h : x.Preserves Machine.store)
    (m : Machine) : step.Changes m.store (x.after m).store := by
  have hstore : (x.after m).store = m.store := h m
  rw [hstore]
  exact .same

/-- Storing in a variable gives it a value of the type that it has. -/
theorem changes_store {step : Step} {target : Identifier} (h : step.target? = some target.name)
    (value : Value) (m : Machine) : step.Changes m.store ((store target value).after m).store := by
  cases hget : m.store.get? target.name with
  | none =>
    rw [after, store_of_get?_eq_none hget]
    exact .same
  | some old =>
    rw [after, store_of_get?_eq_some hget]
    cases hcoerce : value.coerce old.ty with
    | error cause => exact .same
    | ok converted =>
      have hty : m.store.typeOf? target.name = some converted.ty := by
        rw [Store.typeOf?, hget, Value.ty_of_coerce hcoerce]
        rfl
      exact .bind h (.inl hty)

/-- A declaration binds its name to a value of the declared type, or nothing at all. -/
theorem changes_declaration {step : Step} {name : String} {position : Position} {ty : ValueType}
    {initializer : Option Expr} (htarget : step.target? = some name)
    (hty : step.declares? name = some ty) (m : Machine) :
    step.Changes m.store
      ((Statement.declaration name position ty initializer).exec.after m).store := by
  have hstore : ((initialValue position ty initializer).after m).store = m.store :=
    preserves_initialValue position ty initializer m
  rw [exec_declaration, after_bind]
  cases hvalue : initialValue position ty initializer m with
  | error fault m' =>
    rw [after_eq_of_error hvalue] at hstore
    dsimp only
    rw [hstore]
    exact .same
  | ok value m' =>
    rw [after_eq_of_ok hvalue] at hstore
    rw [← ty_of_initialValue hvalue] at hty
    show step.Changes m.store (m'.store.declare name value)
    rw [hstore]
    exact .bind htarget (.inr hty)

end Run

/-- What a step does to the store, however it ends. -/
theorem Step.changes_after (step : Step) (m : Machine) :
    step.Changes m.store (step.run.after m).store := by
  cases step with
  | bound counter e =>
    exact Run.changes_of_preserves
      ((Run.preserves_bound counter e).bind fun _ => Run.preserves_pure ()) m
  | count counter value => exact Run.changes_store rfl _ m
  | simple statement hloop =>
    rw [run]
    cases statement with
    | loop => cases hloop
    | declaration name position ty initializer =>
      have hty : (Step.simple (.declaration name position ty initializer) hloop).declares? name =
          some ty := if_pos rfl
      exact Run.changes_declaration rfl hty m
    | assignment target value =>
      rw [Statement.exec]
      exact Run.changes_bind (Run.preserves_eval value) (fun v => Run.changes_store rfl v) m
    | read target =>
      rw [Statement.exec]
      exact Run.changes_bind (Run.preserves_nextWord target.position)
        (fun word => Run.changes_store rfl (.string word)) m
    | print value position =>
      rw [Statement.exec]
      exact Run.changes_of_preserves
        ((Run.preserves_eval value).bind fun v =>
          Run.preserves_write (fun _ _ => rfl) v.text position) m
    | assert condition position =>
      rw [Statement.exec]
      refine Run.changes_of_preserves (Run.preserves_get.bind fun m' => ?_) m
      exact (Run.preserves_lift _).bind fun holds =>
        Run.preserves_write (fun _ _ => rfl) (assertionReport holds) position

/-- A step that declares nothing leaves the variables with their types. -/
theorem Step.preserves_types {step : Step} (h : ∀ name, step.declares? name = none) :
    step.run.Preserves fun m => m.store.types := by
  intro m
  have hchanges := step.changes_after m
  dsimp only
  generalize (step.run.after m).store = after at hchanges ⊢
  cases hchanges with
  | same => rfl
  | bind _ hty =>
    rcases hty with hty | hty
    · exact (Store.types_declare _ _ _).trans (TypeTable.declare_of_eq_some hty)
    · rw [h] at hty
      cases hty

/-- A step changes no type but that of a name that it declares. -/
theorem Step.types_after (step : Step) (m : Machine) :
    (step.run.after m).store.types = m.store.types ∨
      ∃ name ty, step.declares? name = some ty ∧
        (step.run.after m).store.types = m.store.types.declare name ty := by
  have hchanges := step.changes_after m
  generalize (step.run.after m).store = after at hchanges ⊢
  cases hchanges with
  | same => exact .inl rfl
  | @bind name value _ hty =>
    have htypes := Store.types_declare m.store name value
    rcases hty with hty | hty
    · exact .inl (htypes.trans (TypeTable.declare_of_eq_some hty))
    · exact .inr ⟨name, value.ty, hty, htypes⟩

end MiniPL
