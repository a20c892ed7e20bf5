import MiniPL.Machine

/-!
# The steps of a run

A run falls apart into steps: each statement without a body is one step, and a loop takes one step
for each of its bounds and one whenever its counter gets a value.  The log of a run holds its
moments, that is its steps in order, each with the machine on which it is taken; a step that meets a
fault is the last.

* `Block.run_log`: keeping a log does not change the run.
* `Block.log_built`: the run of a block is put together from the steps of its statements.  This is
  the induction over statements, blocks and rounds; what is said of all runs that are `Logged.Built`
  from steps is proved by induction on that, with one case for a step.
* `Block.keeps_log`: what every step of a block keeps is true at every moment of its run and at its
  end.
-/

namespace MiniPL

/-! ### Statements at any depth -/

/-- Whether a statement has a body. -/
def Statement.isLoop : Statement → Bool
  | .loop _ _ _ _ => true
  | _ => false

mutual

/-- A statement and the statements in its body, at any depth. -/
def Statement.allStatements : Statement → List Statement
  | .loop counter start stop body => .loop counter start stop body :: Block.allStatements body
  | statement => [statement]

/-- The statements of a block, at any depth. -/
def Block.allStatements : Block → List Statement
  | [] => []
  | statement :: rest => statement.allStatements ++ Block.allStatements rest

end

theorem Statement.mem_allStatements_self (v : Statement) : v ∈ v.allStatements := by
  cases v <;> exact List.mem_cons_self

theorem Statement.allStatements_of_not_isLoop {v : Statement} (h : v.isLoop = false) :
    v.allStatements = [v] := by
  cases v with
  | loop => cases h
  | _ => rfl

theorem Block.mem_allStatements_iff {b : Block} {w : Statement} :
    w ∈ Block.allStatements b ↔ ∃ v ∈ b, w ∈ v.allStatements := by
  induction b with
  | nil => simp [Block.allStatements]
  | cons v rest ih =>
    simp only [Block.allStatements, List.mem_append, ih, List.mem_cons, or_and_right, exists_or,
      exists_eq_left]

/-! ### Steps -/

/-- The smallest steps of a run. -/
inductive Step
  /-- A statement without a body. -/
  | simple (statement : Statement) (hloop : statement.isLoop = false)
  /-- Evaluating a bound of a loop. -/
  | bound (counter : Identifier) (e : Expr)
  /-- Giving the counter of a loop a value. -/
  | count (counter : Identifier) (value : Int32)

namespace Step

/-- What a step does. -/
def run : Step → Run Unit
  | simple statement _ => statement.exec
  | bound counter e => do let _ ← Run.bound counter e
  | count counter value => Run.store counter (.int value)

/-- The expression that a step evaluates in the store that it finds. -/
def expr? : Step → Option Expr
  | simple (.declaration _ _ _ initializer) _ => initializer
  | simple (.assignment _ value) _ => some value
  | simple (.print value _) _ => some value
  | simple (.assert condition _) _ => some condition
  | bound _ e => some e
  | _ => none

/-- The type that a step declares a name to have. -/
def declares? (name : String) : Step → Option ValueType
  | simple (.declaration other _ ty _) _ => if name = other then some ty else none
  | _ => none

/-- `step.IsOf statement`: running the statement may take the step, apart from its body. -/
inductive IsOf : Step → Statement → Prop
  | simple {statement : Statement} (hloop : statement.isLoop = false) :
    IsOf (simple statement hloop) statement
  | start {counter : Identifier} {start stop : Expr} {body : Block} :
    IsOf (bound counter start) (.loop counter start stop body)
  | stop {counter : Identifier} {start stop : Expr} {body : Block} :
    IsOf (bound counter stop) (.loop counter start stop body)
  | count {counter : Identifier} {start stop : Expr} {body : Block} (value : Int32) :
    IsOf (count counter value) (.loop counter start stop body)

end Step

/-- A step with the machine on which it is taken. -/
structure Moment where
  step : Step
  machine : Machine

/-! ### Runs with a log -/

namespace Run

variable {α β : Type}

/-- The machine that a run leaves behind, however it ends. -/
def after (x : Run α) (m : Machine) : Machine :=
  match x m with
  | .ok _ m' => m'
  | .error _ m' => m'

theorem after_eq_of_ok {x : Run α} {m m' : Machine} {a : α} (h : x m = .ok a m') :
    x.after m = m' := by
  rw [after, h]

theorem after_eq_of_error {x : Run α} {m m' : Machine} {fault : Diagnostic}
    (h : x m = .error fault m') : x.after m = m' := by
  rw [after, h]

theorem after_congr {x y : Run α} {m m' : Machine} (h : x m = y m') : x.after m = y.after m' := by
  rw [after, h, ← after]

theorem bind_eq_of_ok {x : Run α} {f : α → Run β} {m m' : Machine} {a : α} (h : x m = .ok a m') :
    (x >>= f) m = f a m' := by
  show EStateM.bind x f m = _
  rw [EStateM.bind, h]

theorem bind_eq_of_error {x : Run α} {f : α → Run β} {m m' : Machine} {fault : Diagnostic}
    (h : x m = .error fault m') : (x >>= f) m = .error fault m' := by
  show EStateM.bind x f m = _
  rw [EStateM.bind, h]

end Run

/-- A run that keeps a log of its moments. -/
def Logged (α : Type) : Type :=
  Machine → EStateM.Result Diagnostic Machine α × List Moment

namespace Logged

variable {α β : Type}

/-- The run itself. -/
def run (x : Logged α) : Run α := fun m => (x m).1

/-- The log of the run on a machine. -/
def moments (x : Logged α) (m : Machine) : List Moment := (x m).2

instance : Monad Logged where
  pure a := fun m => (.ok a m, [])
  bind x f := fun m =>
    match (x m).1 with
    | .ok a m' => ((f a m').1, (x m).2 ++ (f a m').2)
    | .error fault m' => (.error fault m', (x m).2)

/-- Takes a step, and logs it. -/
def perform (step : Step) (run : Run α) : Logged α :=
  fun m => (run m, [⟨step, m⟩])

/-- Runs a round for each of `count` numbers from `i` on. -/
def rounds (round : Int32 → Logged Unit) : (count : Nat) → (i : Int32) → Logged Unit
  | 0, _ => pure ()
  | count + 1, i => do
    round i
    rounds round count (i + 1)

/-- Runs a statement without a body. -/
def simple (statement : Statement) (hloop : statement.isLoop = false) : Logged Unit :=
  perform (.simple statement hloop) statement.exec

/-- Evaluates a bound of a loop. -/
def bound (counter : Identifier) (e : Expr) : Logged Int32 :=
  perform (.bound counter e) (Run.bound counter e)

/-- Gives the counter of a loop a value. -/
def count (counter : Identifier) (value : Int32) : Logged Unit :=
  perform (.count counter value) (Run.store counter (.int value))

theorem run_bind (x : Logged α) (f : α → Logged β) :
    (x >>= f).run = x.run >>= fun a => (f a).run := by
  funext m
  show (match (x m).1 with
    | .ok a m' => ((f a m').1, (x m).2 ++ (f a m').2)
    | .error fault m' => (.error fault m', (x m).2)).1 = EStateM.bind x.run _ m
  rw [EStateM.bind, run]
  cases (x m).1 <;> rfl

theorem moments_bind_of_ok {x : Logged α} {f : α → Logged β} {m m' : Machine} {a : α}
    (h : x.run m = .ok a m') : (x >>= f).moments m = x.moments m ++ (f a).moments m' := by
  unfold run at h
  show (match (x m).1 with
    | .ok a m' => ((f a m').1, (x m).2 ++ (f a m').2)
    | .error fault m' => (.error fault m', (x m).2)).2 = _
  rw [h]
  rfl

theorem moments_bind_of_error {x : Logged α} {f : α → Logged β} {m m' : Machine}
    {fault : Diagnostic} (h : x.run m = .error fault m') :
    (x >>= f).moments m = x.moments m := by
  unfold run at h
  show (match (x m).1 with
    | .ok a m' => ((f a m').1, (x m).2 ++ (f a m').2)
    | .error fault m' => (.error fault m', (x m).2)).2 = _
  rw [h]
  rfl

/-- Runs in sequence: the second goes on where the first is done, and a fault of the first ends
both. -/
theorem bind_cases (x : Logged α) (f : α → Logged β) (m : Machine) :
    (∃ a m', x.run m = .ok a m' ∧ (x >>= f).run m = (f a).run m' ∧
      (x >>= f).moments m = x.moments m ++ (f a).moments m') ∨
    ∃ fault m', x.run m = .error fault m' ∧ (x >>= f).run m = .error fault m' ∧
      (x >>= f).moments m = x.moments m := by
  rw [run_bind]
  cases h : x.run m with
  | ok a m' => exact .inl ⟨a, m', rfl, Run.bind_eq_of_ok h, moments_bind_of_ok h⟩
  | error fault m' => exact .inr ⟨fault, m', rfl, Run.bind_eq_of_error h, moments_bind_of_error h⟩

theorem run_rounds (round : Int32 → Logged Unit) (n : Nat) (i : Int32) :
    (rounds round n i).run = Run.rounds (fun j => (round j).run) n i := by
  induction n generalizing i with
  | zero => rfl
  | succ n ih =>
    rw [rounds, run_bind]
    simp only [ih, Run.rounds]

end Logged

mutual

/-- Runs a statement, and logs its steps. -/
def Statement.log : Statement → Logged Unit
  | .declaration name position ty initializer =>
    .simple (.declaration name position ty initializer) rfl
  | .assignment target value => .simple (.assignment target value) rfl
  | .loop counter start stop body => do
    let first ← Logged.bound counter start
    let last ← Logged.bound counter stop
    Logged.count counter first
    let round (i : Int32) : Logged Unit := do
      Logged.count counter i
      Block.log body
    Logged.rounds round (roundCount first last) first
  | .print value position => .simple (.print value position) rfl
  | .read target => .simple (.read target) rfl
  | .assert condition position => .simple (.assert condition position) rfl

/-- Runs the statements of a block in order, and logs their steps. -/
def Block.log : Block → Logged Unit
  | [] => pure ()
  | statement :: rest => do
    statement.log
    Block.log rest

end

/-- The moments of the run of a program on a machine. -/
def Program.moments (program : Program) (m : Machine) : List Moment :=
  (Block.log program.statements).moments m

mutual

/-- Keeping a log does not change the run of a statement. -/
theorem Statement.run_log : ∀ v : Statement, v.log.run = v.exec
  | .declaration _ _ _ _ | .assignment _ _ | .print _ _ | .read _ | .assert _ _ => by
    simp only [Statement.log, Logged.simple]
    rfl
  | .loop counter start stop body => by
    simp only [Statement.log, Statement.exec, Logged.run_bind, Logged.run_rounds,
      Block.run_log body]
    rfl

/-- Keeping a log does not change the run of a block. -/
theorem Block.run_log : ∀ b : Block, (Block.log b).run = Block.exec b
  | [] => rfl
  | v :: rest => by
    rw [Block.log, Block.exec, Logged.run_bind, v.run_log, Block.run_log rest]

end

/-! ### Runs put together from steps -/

namespace Logged

/-- The run is put together from allowed steps. -/
inductive Built (allowed : Step → Prop) : {α : Type} → Logged α → Prop
  | pure {α : Type} (a : α) : Built allowed (Pure.pure a : Logged α)
  | bind {α β : Type} {x : Logged α} {f : α → Logged β} (hx : Built allowed x)
    (hf : ∀ a, Built allowed (f a)) : Built allowed (x >>= f)
  | perform {α : Type} {step : Step} {x : Run α} (hallowed : allowed step)
    (hrun : (do let _ ← x) = step.run) : Built allowed (Logged.perform step x)

variable {allowed : Step → Prop}

theorem Built.rounds {round : Int32 → Logged Unit} (h : ∀ i, (round i).Built allowed) (n : Nat)
    (i : Int32) : (Logged.rounds round n i).Built allowed := by
  induction n generalizing i with
  | zero => exact .pure ()
  | succ n ih => exact .bind (h i) fun _ => ih (i + 1)

theorem built_bound {counter : Identifier} {e : Expr} (h : allowed (.bound counter e)) :
    (bound counter e).Built allowed :=
  .perform h rfl

theorem built_count {counter : Identifier} {value : Int32} (h : allowed (.count counter value)) :
    (count counter value).Built allowed :=
  .perform h bind_pure_unit

theorem built_simple {statement : Statement} {hloop : statement.isLoop = false}
    (h : allowed (.simple statement hloop)) : (simple statement hloop).Built allowed :=
  .perform h bind_pure_unit

end Logged

section
variable {allowed : Step → Prop}

mutual

theorem Statement.log_built : ∀ v : Statement,
    (∀ w ∈ v.allStatements, ∀ step : Step, step.IsOf w → allowed step) → v.log.Built allowed
  | .declaration _ _ _ _, h | .assignment _ _, h | .print _ _, h | .read _, h | .assert _ _, h =>
    Logged.built_simple (h _ (Statement.mem_allStatements_self _) _ (.simple rfl))
  | .loop counter start stop body, h => by
    have hself := h _ (Statement.mem_allStatements_self _)
    have hcount (i : Int32) : (Logged.count counter i).Built allowed :=
      Logged.built_count (hself _ (.count i))
    have hbody : (Block.log body).Built allowed :=
      Block.log_built body fun w hw => h w (List.mem_cons_of_mem _ hw)
    refine .bind (Logged.built_bound (hself _ .start)) fun first => ?_
    refine .bind (Logged.built_bound (hself _ .stop)) fun last => ?_
    refine .bind (hcount first) fun _ => ?_
    exact Logged.Built.rounds (fun i => .bind (hcount i) fun _ => hbody) _ first

/-- The run of a block is put together from the steps of its statements. -/
theorem Block.log_built : ∀ b : Block,
    (∀ w ∈ Block.allStatements b, ∀ step : Step, step.IsOf w → allowed step) →
      (Block.log b).Built allowed
  | [], _ => .pure ()
  | v :: rest, h =>
    .bind (v.log_built fun w hw => h w (List.mem_append_left _ hw)) fun _ =>
      Block.log_built rest fun w hw => h w (List.mem_append_right _ hw)

end

end

/-! ### What all steps keep -/

theorem Run.after_discard {α : Type} (x : Run α) (m : Machine) :
    (do let _ ← x : Run Unit).after m = x.after m := by
  cases h : x m with
  | ok a m' =>
    rw [after_congr (bind_eq_of_ok h), after_eq_of_ok h]
    rfl
  | error fault m' => rw [after_eq_of_error h, after_eq_of_error (bind_eq_of_error h)]

namespace Logged

variable {α : Type} {inv : Machine → Prop} {allowed : Step → Prop}

/-- The run takes allowed steps only, and keeps the invariant from moment to moment and to its
end. -/
def Keeps (x : Logged α) (inv : Machine → Prop) (allowed : Step → Prop) : Prop :=
  ∀ m, inv m →
    (∀ moment ∈ x.moments m, inv moment.machine ∧ allowed moment.step) ∧ inv (x.run.after m)

theorem Built.keeps {x : Logged α} (h : x.Built allowed)
    (hinv : ∀ step m, allowed step → inv m → inv (step.run.after m)) : x.Keeps inv allowed := by
  induction h with
  | pure a => exact fun _ hm => ⟨fun _ hmem => (List.not_mem_nil hmem).elim, hm⟩
  | @perform α step x hallowed hrun =>
    intro m hm
    refine ⟨fun moment hmem => ?_, ?_⟩
    · obtain rfl := List.mem_singleton.1 hmem
      exact ⟨hm, hallowed⟩
    · have hafter := hinv step m hallowed hm
      rwa [← hrun, Run.after_discard] at hafter
  | @bind α β x f hx hf ihx ihf =>
    intro m hm
    obtain ⟨hmoments, hafter⟩ := ihx m hm
    rcases bind_cases x f m with ⟨a, m', hfirst, hrun, hlog⟩ | ⟨fault, m', hfirst, hrun, hlog⟩
    · rw [Run.after_eq_of_ok hfirst] at hafter
      obtain ⟨hmoments', hafter'⟩ := ihf a m' hafter
      rw [hlog, Run.after_congr hrun]
      exact ⟨List.forall_mem_append.2 ⟨hmoments, hmoments'⟩, hafter'⟩
    · rw [Run.after_eq_of_error hfirst] at hafter
      rw [hlog, Run.after_eq_of_error hrun]
      exact ⟨hmoments, hafter⟩

/-- The fault of a run is the fault of one of its steps. -/
theorem Built.exists_of_error {x : Logged α} (h : x.Built allowed) {m m' : Machine}
    {fault : Diagnostic} (hrun : x.run m = .error fault m') :
    ∃ moment ∈ x.moments m, moment.step.run moment.machine = .error fault m' := by
  induction h generalizing m with
  | pure a => cases hrun
  | @perform α step x hallowed hx =>
    refine ⟨⟨step, m⟩, List.mem_singleton_self _, ?_⟩
    rw [← hx]
    exact Run.bind_eq_of_error hrun
  | @bind α β x f hx hf ihx ihf =>
    rcases bind_cases x f m with ⟨a, m'', hfirst, hbind, hlog⟩ | ⟨fault', m'', hfirst, hbind, hlog⟩
    · obtain ⟨moment, hmem, hstep⟩ := ihf a (hbind.symm.trans hrun)
      rw [hlog]
      exact ⟨moment, List.mem_append_right _ hmem, hstep⟩
    · obtain ⟨rfl, rfl⟩ := EStateM.Result.error.inj (hbind.symm.trans hrun)
      rw [hlog]
      exact ihx hfirst

end Logged

section
variable {inv : Machine → Prop} {allowed : Step → Prop}

theorem Statement.keeps_log (hinv : ∀ step m, allowed step → inv m → inv (step.run.after m))
    (v : Statement) (h : ∀ w ∈ v.allStatements, ∀ step : Step, step.IsOf w → allowed step) :
    v.log.Keeps inv allowed :=
  (v.log_built h).keeps hinv

/-- What every step of a block keeps is true at every moment of its run and at its end. -/
theorem Block.keeps_log (hinv : ∀ step m, allowed step → inv m → inv (step.run.after m))
    (b : Block) (h : ∀ w ∈ Block.allStatements b, ∀ step : Step, step.IsOf w → allowed step) :
    (Block.log b).Keeps inv allowed :=
  (Block.log_built b h).keeps hinv

end

end MiniPL
