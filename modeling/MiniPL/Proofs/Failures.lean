import MiniPL.Proofs.Reading

/-!
# What a failed run leaves behind

A step does everything that can fail before it changes anything, so that a step that fails changes
nothing; only a `read` has taken what it found by then (`Step.after_of_error`).  Hence a failed run
has done its completed steps and nothing more.  Of these the bounds of loops do nothing, and the
statements and the values of counters, taken once more in their order, lead to the machine on which
the failing step is taken (`Logged.Built.explain`).

Main statement: `failure_leaves_completed_steps`.
-/

namespace MiniPL

/-! ### Runs that fail -/

namespace Run

variable {α β γ : Type} {view : Machine → γ}

/-- If the run fails, a view of the machine is as before. -/
def KeepsOnFault (x : Run α) (view : Machine → γ) : Prop :=
  ∀ ⦃m fault m'⦄, x m = .error fault m' → view m' = view m

theorem Preserves.keepsOnFault {x : Run α} (h : x.Preserves view) : x.KeepsOnFault view := by
  intro m fault m' hrun
  have hm := h m
  rwa [after_eq_of_error hrun] at hm

/-- Changes come last: what runs in front of them keeps the view in any case. -/
theorem KeepsOnFault.bind {x : Run α} {f : α → Run β} (hx : x.Preserves view)
    (hf : ∀ a, (f a).KeepsOnFault view) : (x >>= f).KeepsOnFault view := by
  intro m fault m' hrun
  cases hfirst : x m with
  | ok a m'' =>
    have hm := hx m
    rw [after_eq_of_ok hfirst] at hm
    rw [bind_eq_of_ok hfirst] at hrun
    exact (hf a hrun).trans hm
  | error fault' m'' =>
    rw [bind_eq_of_error hfirst] at hrun
    cases hrun
    exact hx.keepsOnFault hfirst

theorem keepsOnFault_declare (name : String) (value : Value) :
    (declare name value).KeepsOnFault view := by
  intro m fault m' hrun
  cases hrun

theorem keepsOnFault_store (target : Identifier) (value : Value) :
    (store target value).KeepsOnFault view := by
  refine .bind preserves_get fun m => .bind (preserves_lift _) fun old => ?_
  exact .bind (preserves_lift _) fun converted => keepsOnFault_declare _ _

theorem keepsOnFault_write (text : String) (position : Position) :
    (write text position).KeepsOnFault view := by
  intro m fault m' hrun
  rw [write_eq] at hrun
  split at hrun
  · split at hrun
    · cases hrun
    · cases hrun
      rfl
  · cases hrun

end Run

/-- A statement without a body that fails has changed nothing, unless it reads. -/
theorem Statement.keepsOnFault_exec {γ : Type} {view : Machine → γ} {v : Statement}
    (hloop : v.isLoop = false) (hread : ∀ target, v ≠ .read target) : v.exec.KeepsOnFault view := by
  cases v with
  | loop => cases hloop
  | read target => exact absurd rfl (hread target)
  | declaration name position ty initializer =>
    rw [Run.exec_declaration]
    exact .bind (Run.preserves_initialValue position ty initializer) fun value =>
      Run.keepsOnFault_declare name value
  | assignment target value =>
    rw [exec]
    exact .bind (Run.preserves_eval value) fun v => Run.keepsOnFault_store target v
  | print value position =>
    rw [exec]
    exact .bind (Run.preserves_eval value) fun v => Run.keepsOnFault_write v.text position
  | assert condition position =>
    rw [exec]
    refine .bind Run.preserves_get fun m => .bind (Run.preserves_lift _) fun holds => ?_
    exact Run.keepsOnFault_write (assertionReport holds) position

/-- A `read` that fails has taken what it found. -/
theorem Statement.after_read_of_error {target : Identifier} {m m' : Machine} {fault : Diagnostic}
    (h : (Statement.read target).exec m = .error fault m') :
    m' = { m with input := m.input.nextWord.2 } := by
  rw [exec_read] at h
  cases hword : m.input.nextWord.1 with
  | ok word =>
    rw [hword] at h
    have hkeeps : (Run.store target (.string word)).KeepsOnFault id := Run.keepsOnFault_store _ _
    exact hkeeps h
  | error cause =>
    rw [hword] at h
    cases h
    rfl

theorem Statement.after_of_error {v : Statement} (hloop : v.isLoop = false) {m m' : Machine}
    {fault : Diagnostic} (h : v.exec m = .error fault m') :
    m' = m ∨ ∃ target, v = .read target ∧ m' = { m with input := m.input.nextWord.2 } := by
  by_cases hread : ∃ target, v = .read target
  · obtain ⟨target, rfl⟩ := hread
    exact .inr ⟨target, rfl, after_read_of_error h⟩
  · have hkeeps : v.exec.KeepsOnFault id :=
      keepsOnFault_exec hloop fun target hv => hread ⟨target, hv⟩
    exact .inl (hkeeps h)

namespace Step

/-- A step that fails leaves the variables and the output as they are. -/
theorem after_of_error {step : Step} {m m' : Machine} {fault : Diagnostic}
    (h : step.run m = .error fault m') : m'.store = m.store ∧ m'.output = m.output := by
  cases step with
  | bound counter e =>
    have hkeeps : (Step.bound counter e).run.KeepsOnFault id :=
      .bind (Run.preserves_bound counter e) fun _ => (Run.preserves_pure ()).keepsOnFault
    obtain rfl : m' = m := hkeeps h
    exact ⟨rfl, rfl⟩
  | count counter value =>
    have hkeeps : (Run.store counter (.int value)).KeepsOnFault id := Run.keepsOnFault_store _ _
    obtain rfl : m' = m := hkeeps h
    exact ⟨rfl, rfl⟩
  | simple statement hloop =>
    rcases Statement.after_of_error hloop h with rfl | ⟨-, -, rfl⟩
    · exact ⟨rfl, rfl⟩
    · exact ⟨rfl, rfl⟩

/-! ### Steps taken once more -/

/-- Whether a step is a statement or gives a counter a value; any other finds a bound. -/
def acts : Step → Bool
  | bound _ _ => false
  | simple _ _ | count _ _ => true

/-- Takes steps one after another. -/
def runAll : List Step → Run Unit
  | [] => pure ()
  | step :: rest => do
    step.run
    runAll rest

theorem runAll_append (steps rest : List Step) :
    runAll (steps ++ rest) = (do runAll steps; runAll rest) := by
  induction steps with
  | nil => rfl
  | cons step steps ih =>
    rw [List.cons_append, runAll, ih, runAll, bind_assoc]

/-- Steps that do nothing can be left out. -/
theorem runAll_filter_acts {steps : List Step} {m m' : Machine}
    (h : runAll steps m = .ok () m') : runAll (steps.filter acts) m = .ok () m' := by
  induction steps generalizing m with
  | nil => exact h
  | cons step steps ih =>
    cases hstep : step.run m with
    | error fault m'' =>
      rw [runAll, Run.bind_eq_of_error hstep] at h
      cases h
    | ok u m'' =>
      rw [runAll, Run.bind_eq_of_ok hstep] at h
      cases step with
      | bound counter e =>
        have hpreserves : (Step.bound counter e).run.Preserves id :=
          (Run.preserves_bound counter e).bind fun _ => Run.preserves_pure ()
        have hm := hpreserves m
        rw [Run.after_eq_of_ok hstep] at hm
        obtain rfl : m'' = m := hm
        exact ih h
      | simple | count =>
        rw [List.filter_cons_of_pos rfl, runAll, Run.bind_eq_of_ok hstep]
        exact ih h

end Step

namespace Moment

variable {α : Type}

/-- The steps of the moments, taken once more, lead from one machine to the other. -/
def LeadTo (moments : List Moment) (m m' : Machine) : Prop :=
  Step.runAll (moments.map Moment.step) m = .ok () m'

theorem LeadTo.append {front back : List Moment} {m m' m'' : Machine} (h : LeadTo front m m')
    (hback : LeadTo back m' m'') : LeadTo (front ++ back) m m'' := by
  rw [LeadTo, List.map_append, Step.runAll_append]
  exact (Run.bind_eq_of_ok h).trans hback

/-- What the moments of a run on `m` have to do with its end: they lead there, or the last of them
fails and the others lead to the machine on which it is taken. -/
def Explain (moments : List Moment) (m : Machine) : EStateM.Result Diagnostic Machine α → Prop
  | .ok _ m' => LeadTo moments m m'
  | .error fault m' => ∃ completed failing, moments = completed ++ [failing] ∧
      LeadTo completed m failing.machine ∧ failing.step.run failing.machine = .error fault m'

theorem Explain.behind {front back : List Moment} {m m' : Machine}
    {result : EStateM.Result Diagnostic Machine α} (h : Explain back m' result)
    (hfront : LeadTo front m m') : Explain (front ++ back) m result := by
  cases result with
  | ok a m'' => exact hfront.append h
  | error fault m'' =>
    obtain ⟨completed, failing, rfl, hleads, hfails⟩ := h
    exact ⟨front ++ completed, failing, (List.append_assoc _ _ _).symm, hfront.append hleads,
      hfails⟩

end Moment

namespace Logged

variable {α : Type} {allowed : Step → Prop}

theorem explain_perform {step : Step} {x : Run α} (hx : (do let _ ← x) = step.run) (m : Machine) :
    Moment.Explain [⟨step, m⟩] m (x m) := by
  cases hrun : x m with
  | ok a m' =>
    have hstep : step.run m = .ok () m' := by
      rw [← hx]
      exact Run.bind_eq_of_ok hrun
    exact Run.bind_eq_of_ok hstep
  | error fault m' =>
    have hstep : step.run m = .error fault m' := by
      rw [← hx]
      exact Run.bind_eq_of_error hrun
    exact ⟨[], ⟨step, m⟩, rfl, rfl, hstep⟩

/-- The steps of a run that is done lead to its end, and those of a failed one to the step that
fails. -/
theorem Built.explain {x : Logged α} (h : x.Built allowed) (m : Machine) :
    Moment.Explain (x.moments m) m (x.run m) := by
  induction h generalizing m with
  | pure a => rfl
  | perform _ hrun => exact explain_perform hrun m
  | @bind α β x f hx hf ihx ihf =>
    have hfront := ihx m
    rcases bind_cases x f m with ⟨a, m', hfirst, hrun, hlog⟩ | ⟨fault, m', hfirst, hrun, hlog⟩
    · rw [hfirst] at hfront
      rw [hrun, hlog]
      exact (ihf a m').behind hfront
    · rw [hfirst] at hfront
      rw [hrun, hlog]
      exact hfront

end Logged

/-- A statement without a body that fails has no effect on the variables and the output, and only a
`read` has taken something from the input.  A program that fails leaves the variables and the output
that its completed steps make, from its statements and the values of its counters in the order in
which they are run through all rounds. -/
theorem failure_leaves_completed_steps :
    (∀ (v : Statement) (m m' : Machine) (fault : Diagnostic), v.isLoop = false →
      v.exec m = .error fault m' → m'.store = m.store ∧ m'.output = m.output ∧
        (m'.input = m.input ∨ ∃ target, v = .read target ∧ m'.input = m.input.nextWord.2)) ∧
    ∀ (program : Program) (m m' : Machine) (fault : Diagnostic),
      program.exec m = .error fault m' → ∃ completed failing last,
        program.moments m = completed ++ [failing] ∧
          failing.step.run failing.machine = .error fault m' ∧
          Step.runAll ((completed.map Moment.step).filter Step.acts) m = .ok () last ∧
          m'.store = last.store ∧ m'.output = last.output := by
  refine ⟨fun v m m' fault hloop h => ?_, fun program m m' fault h => ?_⟩
  · rcases Statement.after_of_error hloop h with rfl | ⟨target, rfl, rfl⟩
    · exact ⟨rfl, rfl, .inl rfl⟩
    · exact ⟨rfl, rfl, .inr ⟨target, rfl, rfl⟩⟩
  · have hbuilt : (Block.log program.statements).Built fun _ => True :=
      Block.log_built _ fun _ _ _ _ => trivial
    have hrun : (Block.log program.statements).run m = .error fault m' := by
      rw [Block.run_log]
      exact h
    have hexplain := hbuilt.explain m
    rw [hrun] at hexplain
    obtain ⟨completed, failing, heq, hleads, hfails⟩ := hexplain
    exact ⟨completed, failing, failing.machine, heq, hfails, Step.runAll_filter_acts hleads,
      Step.after_of_error hfails⟩

/-- A `read` of a word that writes no number, and `for x in 0..2 do print x; y := 6 / (1 - x); end
for;`, which fails in its second round. -/
theorem failure_leaves_first_round :
    let x : Identifier := ⟨"x", some .int, .start⟩
    let quotient := Expr.binary .div (.int 6) (.binary .sub (.int 1) (.var x) .start) .start
    let body : Block := [.print (.var x) .start, .assignment ⟨"y", some .int, .start⟩ quotient]
    let program : Program := ⟨[.loop x (.int 0) (.int 2) body]⟩
    let store := (Store.empty.declare "x" (.int 5)).declare "y" (.int 0)
    let m : Machine := ⟨store, ⟨["none", "7"], []⟩, {}⟩
    (∃ fault m', (Statement.read x).exec m = .error fault m' ∧ m'.store = store ∧
      m'.output = {} ∧ (m'.input = m.input ∨
        ∃ target, Statement.read x = .read target ∧ m'.input = m.input.nextWord.2)) ∧
    ∃ fault m' completed failing last, program.exec m = .error fault m' ∧
      m'.store.get? "y" = some (.int 6) ∧ m'.output.written = "01" ∧
        program.moments m = completed ++ [failing] ∧
          failing.step.run failing.machine = .error fault m' ∧
          Step.runAll ((completed.map Moment.step).filter Step.acts) m = .ok () last ∧
          m'.store = last.store ∧ m'.output = last.output := by
  intro x quotient body program store m
  obtain ⟨hstatement, hprogram⟩ := failure_leaves_completed_steps
  refine ⟨?_, ?_⟩
  · have hread : (Statement.read x).exec m = .error (.of (.notInteger "none") .start)
        { m with input := ⟨["7"], []⟩ } := by rfl
    exact ⟨_, _, hread, hstatement _ m _ _ rfl hread⟩
  · have hstore : (program.exec.after m).store.get? "y" = some (.int 6) := by decide +kernel
    have hwritten : (program.exec.after m).output.written = "01" := by decide +kernel
    have hfails : program.exec.run' m = none := by decide +kernel
    cases hrun : program.exec m with
    | ok u m' =>
      delta EStateM.run' EStateM.run at hfails
      rw [hrun] at hfails
      cases hfails
    | error fault m' =>
      rw [Run.after_eq_of_error hrun] at hstore hwritten
      obtain ⟨completed, failing, last, hlast⟩ := hprogram program m m' fault hrun
      exact ⟨fault, m', completed, failing, last, rfl, hstore, hwritten, hlast⟩

end MiniPL
