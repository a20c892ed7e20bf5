import MiniPL.Proofs.VariableTypes

/-!
# What a run leaves alone

A step binds at most one name, its target, to a value of the type that the name has or that the step
declares (`Step.changes_after`).  Hence a run of a block unbinds nothing, binds only names that the
block declares, and changes only values of names that the block stores to; the type of a name is the
old one or the one of a declaration in the block.  This holds wherever the run ends, also at a fault
inside of nested loops.

Main statement: `Block.frame_after_exec`.  The induction over steps is that of `Block.keeps_log`,
with `Block.Frame` as the invariant.
-/

namespace MiniPL

/-! ### What a block stores to -/

/-- The name that a statement declares, with its type. -/
def Statement.declared? : Statement → Option (String × ValueType)
  | .declaration name _ ty _ => some (name, ty)
  | _ => none

namespace Block

/-- The name is the target of a declaration, assignment, loop or `read` of the block, at any
depth. -/
def Targets (b : Block) (name : String) : Prop :=
  ∃ v ∈ Block.allStatements b, v.target? = some name

/-- The block declares the name to have the type, at any depth. -/
def Declares (b : Block) (name : String) (ty : ValueType) : Prop :=
  ∃ v ∈ Block.allStatements b, v.declared? = some (name, ty)

instance (b : Block) (name : String) : Decidable (b.Targets name) :=
  inferInstanceAs (Decidable (∃ v ∈ Block.allStatements b, v.target? = some name))

instance (b : Block) (name : String) (ty : ValueType) : Decidable (b.Declares name ty) :=
  inferInstanceAs (Decidable (∃ v ∈ Block.allStatements b, v.declared? = some (name, ty)))

end Block

/-! ### The steps of a block -/

namespace Step

theorem IsOf.target?_eq {step : Step} {v : Statement} (h : step.IsOf v) {name : String}
    (hname : step.target? = some name) : v.target? = some name := by
  cases h with
  | simple => exact hname
  | start | stop => cases hname
  | count => exact hname

theorem IsOf.declared?_eq {step : Step} {v : Statement} (h : step.IsOf v) {name : String}
    {ty : ValueType} (hty : step.declares? name = some ty) : v.declared? = some (name, ty) := by
  cases h with
  | start | stop | count => cases hty
  | simple hloop =>
    cases v with
    | loop => cases hloop
    | assignment | print | read | assert => cases hty
    | declaration other position ty' initializer =>
      rw [declares?] at hty
      split at hty
      · rename_i hname
        cases hty
        rw [Statement.declared?, hname]
      · cases hty

end Step

/-! ### Runs -/

/-- What may have become of a store while a block runs. -/
structure Block.Frame (b : Block) (before after : Store) : Prop where
  /-- What is bound stays bound. -/
  bound : ∀ name, before.contains name = true → after.contains name = true
  /-- A name that the block does not store to keeps its value. -/
  value : ∀ name, ¬ b.Targets name → after.get? name = before.get? name
  /-- A name has its old type or one that the block declares it to have. -/
  type : ∀ name, after.typeOf? name = before.typeOf? name ∨
    ∃ ty, b.Declares name ty ∧ after.typeOf? name = some ty

namespace Block

variable {b : Block} {before store after : Store}

theorem Frame.refl (b : Block) (store : Store) : b.Frame store store :=
  ⟨fun _ h => h, fun _ _ => rfl, fun _ => .inl rfl⟩

/-- A step of the block keeps the frame. -/
theorem Frame.step (h : b.Frame before store) {step : Step} (hstep : step.Changes store after)
    (htarget : ∀ name, step.target? = some name → b.Targets name)
    (hdeclares : ∀ name ty, step.declares? name = some ty → b.Declares name ty) :
    b.Frame before after := by
  cases hstep with
  | same => exact h
  | @bind name value hname hty =>
    constructor
    · intro other hother
      have hbound := h.bound other hother
      simp only [Store.contains, Store.get?_declare] at hbound ⊢
      split
      · rfl
      · exact hbound
    · intro other hother
      have hne : other ≠ name := by
        rintro rfl
        exact hother (htarget _ hname)
      rw [Store.get?_declare, if_neg hne]
      exact h.value other hother
    · intro other
      simp only [Store.typeOf?, Store.get?_declare]
      split
      · rename_i heq
        subst heq
        rcases hty with hty | hty
        · rw [Option.map_some, ← hty]
          exact h.type other
        · exact .inr ⟨value.ty, hdeclares _ _ hty, rfl⟩
      · exact h.type other

theorem frame_exec (b : Block) (m : Machine) :
    b.Frame m.store ((Block.exec b).after m).store := by
  let allowed (step : Step) : Prop :=
    (∀ name, step.target? = some name → b.Targets name) ∧
      ∀ name ty, step.declares? name = some ty → b.Declares name ty
  have hkeeps : (Block.log b).Keeps (fun m' => b.Frame m.store m'.store) allowed := by
    refine Block.keeps_log ?_ b fun v hv step hstep => ?_
    · intro step m' hallowed hframe
      exact hframe.step (step.changes_after m') hallowed.1 hallowed.2
    · exact ⟨fun _ hname => ⟨v, hv, hstep.target?_eq hname⟩,
        fun _ _ hty => ⟨v, hv, hstep.declared?_eq hty⟩⟩
  have hafter := (hkeeps m (.refl b m.store)).2
  rwa [Block.run_log] at hafter

/-- A run of a block, whether it is done or ends at a fault, unbinds nothing, binds only what the
block declares, and stores only to its targets.  What the block does not declare keeps its type, and
what it declares has its old type or the type of one of its declarations. -/
theorem frame_after_exec (b : Block) (m : Machine) :
    let after := ((Block.exec b).after m).store
    (∀ name, m.store.contains name = true → after.contains name = true) ∧
      (∀ name, m.store.contains name = false → after.contains name = true →
        ∃ ty, b.Declares name ty) ∧
      (∀ name, ¬ b.Targets name → after.get? name = m.store.get? name) ∧
      (∀ name, (∀ ty, ¬ b.Declares name ty) → after.typeOf? name = m.store.typeOf? name) ∧
      ∀ name, (∃ ty, b.Declares name ty) → after.typeOf? name = m.store.typeOf? name ∨
        ∃ ty, b.Declares name ty ∧ after.typeOf? name = some ty := by
  intro after
  have hframe : b.Frame m.store after := frame_exec b m
  refine ⟨hframe.bound, fun name hfree hbound => ?_, hframe.value, fun name hnone => ?_,
    fun name _ => hframe.type name⟩
  · rcases hframe.type name with hsame | ⟨ty, hty, -⟩
    · have hcontains : after.contains name = m.store.contains name := by
        simpa [Store.typeOf?, Store.contains] using congrArg Option.isSome hsame
      rw [hcontains, hfree] at hbound
      cases hbound
    · exact ⟨ty, hty⟩
  · rcases hframe.type name with hsame | ⟨ty, hty, -⟩
    · exact hsame
    · exact absurd hty (hnone ty)

/-- The loop `for i in 0..2 do var t : string := i; x := 6 / (1 - i); end for;` fails in its second
round. -/
theorem frame_after_failed_round :
    let p : Position := .start
    let i : Identifier := ⟨"i", some .bool, p⟩
    let quotient := Expr.binary .div (.int 6) (.binary .sub (.int 1) (.var i) p) p
    let body : Block :=
      [.declaration "t" p .string (some (.var i)), .assignment ⟨"x", some .int, p⟩ quotient]
    let b : Block := [.loop i (.int 0) (.int 2) body]
    let store := ((Store.empty.declare "i" (.bool true)).declare "x" (.int 0)).declare "y" (.int 7)
    let m : Machine := ⟨store, .empty, {}⟩
    let after := ((Block.exec b).after m).store
    (after.get? "i" = some (.bool true) ∧ after.get? "x" = some (.int 6)) ∧
      after.contains "x" = true ∧ (∃ ty, b.Declares "t" ty) ∧
      after.get? "y" = m.store.get? "y" ∧ after.typeOf? "i" = m.store.typeOf? "i" := by
  intro p i quotient body b store m after
  obtain ⟨hbound, hfresh, hvalue, htype, -⟩ := frame_after_exec b m
  refine ⟨by decide +kernel, hbound "x" (by decide +kernel),
    hfresh "t" (by decide +kernel) (by decide +kernel), hvalue "y" (by decide +kernel),
    htype "i" fun ty => ?_⟩
  cases ty <;> decide +kernel

end Block

end MiniPL
