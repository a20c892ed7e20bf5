import MiniPL.Proofs.Building
import MiniPL.Proofs.Lines
import MiniPL.Proofs.Sentences
import MiniPL.Proofs.Steps

/-!
# Every fault points into the source

A place goes from its token into the tree and into the diagnostics, and from the tree into the
faults of a run; nothing makes a place of its own.  The end of the input stands at the last token,
and in front of a text without tokens there is nothing to report and nothing to run.

* `Parser.GrammarInvariant.within` is what the grammar keeps: diagnostics, faults and trees stay at
  given places.
* `Run.FaultsAt` is the same for running: a statement fails at its own places
  (`Statement.faultsAt_exec`).

Main statement: `points_into_source`.
-/

namespace MiniPL

/-! ### The places of a program -/

/-- The places of the mentions and operators of an expression. -/
def Expr.places : Expr → List Position
  | var identifier => [identifier.position]
  | not operand position => position :: operand.places
  | binary _ left right position => position :: (left.places ++ right.places)
  | _ => []

mutual

/-- The places of a statement and its parts. -/
def Statement.places : Statement → List Position
  | .declaration _ position _ none => [position]
  | .declaration _ position _ (some e) => position :: e.places
  | .assignment target value => target.position :: value.places
  | .loop counter start stop body =>
    counter.position :: (start.places ++ stop.places ++ Block.places body)
  | .print value position => position :: value.places
  | .read target => [target.position]
  | .assert condition position => position :: condition.places

/-- The places of the statements of a block and of their parts. -/
def Block.places : Block → List Position
  | [] => []
  | statement :: rest => statement.places ++ Block.places rest

end

theorem Block.places_subset {b : Block} {places : List Position}
    (h : ∀ v ∈ b, v.places ⊆ places) : Block.places b ⊆ places := by
  induction b with
  | nil => exact List.nil_subset _
  | cons v rest ih =>
    obtain ⟨hv, hrest⟩ := List.forall_mem_cons.1 h
    exact List.append_subset.2 ⟨hv, ih hrest⟩

namespace Parser

variable {places : List Position} {s t : State}

/-! ### States whose tokens and diagnostics have given places -/

/-- All tokens still to be read and all diagnostics are at the given places. -/
structure State.Within (s : State) (places : List Position) : Prop where
  rest : ∀ token ∈ s.rest, token.position ∈ places
  eof : s.eof.position ∈ places
  diagnostics : ∀ fault ∈ s.diagnostics, fault.position ∈ places

namespace State

theorem Within.current (h : s.Within places) : s.current.position ∈ places := by
  unfold State.current
  cases hrest : s.rest with
  | nil => exact h.eof
  | cons token rest => exact h.rest token (hrest ▸ List.mem_cons_self)

/-- A rule adds no places but those of its reports. -/
theorem Within.of_reaches (h : s.Within places) (hst : s.Reaches t)
    (hdiag : ∀ fault ∈ t.diagnostics, fault.position ∈ places) : t.Within places :=
  ⟨fun token hmem => h.rest token (hst.rest.subset hmem), hst.eof ▸ h.eof, hdiag⟩

theorem Within.report (h : s.Within places) {fault : Diagnostic}
    (hfault : fault.position ∈ places) : (s.report fault).Within places := by
  refine h.of_reaches (s.reaches_report fault) fun other hmem => ?_
  rcases List.mem_append.1 hmem with hmem | hmem
  · exact h.diagnostics other hmem
  · rw [List.mem_singleton.1 hmem]
    exact hfault

theorem Within.declare (h : s.Within places) (name : String) (ty : ValueType) :
    (s.declare name ty).Within places :=
  h.of_reaches (s.reaches_declare name ty) h.diagnostics

theorem Within.skipTo (h : s.Within places) {rest : List Token} (hrest : rest <:+ s.rest) :
    (s.skipTo rest).Within places :=
  h.of_reaches (s.reaches_skipTo hrest) h.diagnostics

end State

/-! ### What the grammar builds from tokens at given places -/

/-- Everything is at the given places. -/
def GrammarInvariant.within (places : List Position) : GrammarInvariant where
  state s := s.Within places
  taken token := token.position ∈ places
  fault reported := reported.position ∈ places
  type _ := True
  identifier target := target.position ∈ places
  expr e := e.places ⊆ places
  statement v := v.places ⊆ places
  taken_current hs := hs.current
  taken_standIn h _ := h
  fault_of_taken h hposition := hposition ▸ h
  state_skipTo hs hrest := hs.skipTo hrest
  state_report hs h := hs.report h
  state_declare hs name _ := hs.declare name _
  type_int := trivial
  type_bool := trivial
  type_string _ _ := trivial
  identifier_reference _ h := h
  expr_int _ := List.nil_subset _
  expr_bool _ := List.nil_subset _
  expr_string _ _ := List.nil_subset _
  expr_var h := List.cons_subset.2 ⟨h, List.nil_subset _⟩
  expr_not h hoperand := List.cons_subset.2 ⟨h, hoperand⟩
  expr_binary _ h hleft hright := List.cons_subset.2 ⟨h, List.append_subset.2 ⟨hleft, hright⟩⟩
  declaration {_ _ initializer} hname _ hinitializer := by
    cases initializer with
    | none => exact List.cons_subset.2 ⟨hname, List.nil_subset _⟩
    | some e => exact List.cons_subset.2 ⟨hname, hinitializer e rfl⟩
  assignment htarget hvalue := List.cons_subset.2 ⟨htarget, hvalue⟩
  loop hcounter hstart hstop hbody := by
    have hbounds := List.append_subset.2 ⟨hstart, hstop⟩
    exact List.cons_subset.2
      ⟨hcounter, List.append_subset.2 ⟨hbounds, Block.places_subset hbody⟩⟩
  print h hvalue := List.cons_subset.2 ⟨h, hvalue⟩
  read _ _ htarget := List.cons_subset.2 ⟨htarget, List.nil_subset _⟩
  assertion h hcondition := List.cons_subset.2 ⟨h, hcondition⟩

/-- The end of the input stands at a token, if there is one. -/
theorem position_endOf {tokens : List Token} (h : tokens ≠ []) :
    (endOf tokens).position ∈ tokens.map Token.position := by
  unfold endOf
  split
  · rename_i eof hfind
    exact List.mem_map_of_mem (List.mem_of_find?_eq_some hfind)
  · rw [List.getLast?_eq_some_getLast h]
    exact List.mem_map.2 ⟨_, List.getLast_mem h, rfl⟩

theorem State.within_initial (types : TypeTable) {tokens : List Token} (h : tokens ≠ []) :
    (State.initial types tokens).Within (tokens.map Token.position) where
  rest _ hmem := List.mem_map_of_mem ((List.takeWhile_prefix _).subset hmem)
  eof := position_endOf h
  diagnostics _ hmem := nomatch hmem

/-- What is said about a list of tokens, and the statements in it, are at places of the tokens. -/
theorem places_parseTokens (tokens : List Token) (types : TypeTable) :
    (∀ fault ∈ (parseTokens tokens types).diagnostics,
        fault.position ∈ tokens.map Token.position) ∧
      Block.places (parseTokens tokens types).program.statements ⊆ tokens.map Token.position := by
  show (∀ fault ∈ (blockRun false (.initial types tokens)).2.diagnostics, _) ∧
    Block.places (blockRun false (.initial types tokens)).1 ⊆ _
  by_cases hne : tokens = []
  · subst hne
    rw [blockRun_of_nil rfl]
    exact ⟨fun _ hmem => (List.not_mem_nil hmem).elim, List.nil_subset _⟩
  · obtain ⟨hafter, hstatements⟩ :=
      (GrammarInvariant.within _).block false _ (State.within_initial types hne)
    exact ⟨hafter.diagnostics, Block.places_subset hstatements⟩

end Parser

/-! ### Faults of expressions -/

section
variable {α β : Type} {places : List Position}

/-- The computation fails only at one of the places. -/
def FailsAt (x : Except Diagnostic α) (places : List Position) : Prop :=
  ∀ fault, x = .error fault → fault.position ∈ places

theorem failsAt_ok (a : α) : FailsAt (.ok a) places := by
  rintro _ ⟨⟩

theorem failsAt_placed {position : Position} (h : position ∈ places) (x : Except Cause α) :
    FailsAt (placed position x) places := by
  cases x with
  | ok a => exact failsAt_ok a
  | error cause =>
    rintro _ ⟨⟩
    exact h

theorem FailsAt.bind {x : Except Diagnostic α} {f : α → Except Diagnostic β}
    (hx : FailsAt x places) (hf : ∀ a, FailsAt (f a) places) : FailsAt (x >>= f) places := by
  cases x with
  | ok a => exact hf a
  | error fault =>
    rintro _ ⟨⟩
    exact hx fault rfl

theorem FailsAt.mono {x : Except Diagnostic α} {places' : List Position} (h : FailsAt x places)
    (hsubset : places ⊆ places') : FailsAt x places' :=
  fun fault hfault => hsubset (h fault hfault)

end

/-- Looking up a name fails where the name is mentioned. -/
theorem Store.failsAt_lookup {places : List Position} (store : Store) (name : String)
    {position : Position} (h : position ∈ places) :
    FailsAt (store.lookup name position) places := by
  unfold Store.lookup
  split
  · exact failsAt_ok _
  · rintro _ ⟨⟩
    exact h

/-- An expression fails at one of its own places. -/
theorem Expr.failsAt_eval (e : Expr) (store : Store) : FailsAt (e.eval store) e.places := by
  induction e with
  | int | string | bool => exact failsAt_ok _
  | var identifier => exact store.failsAt_lookup identifier.name (List.mem_singleton_self _)
  | not operand position ih =>
    rw [eval]
    refine (ih.mono (List.subset_cons_self _ _)).bind fun value => ?_
    refine (failsAt_placed List.mem_cons_self _).bind fun truth => ?_
    exact failsAt_ok _
  | binary op left right position ihleft ihright =>
    rw [eval]
    have hsubset : left.places ++ right.places ⊆ (binary op left right position).places :=
      List.subset_cons_self _ _
    obtain ⟨hleft, hright⟩ := List.append_subset.1 hsubset
    refine (ihleft.mono hleft).bind fun a => (ihright.mono hright).bind fun b => ?_
    exact failsAt_placed List.mem_cons_self _

theorem failsAt_checkAssertion (store : Store) (condition : Expr) (position : Position) :
    FailsAt (checkAssertion store condition position) (position :: condition.places) := by
  unfold checkAssertion
  refine ((condition.failsAt_eval store).mono (List.subset_cons_self _ _)).bind fun value => ?_
  exact failsAt_placed List.mem_cons_self _

/-! ### Faults of a run -/

namespace Run

variable {α β : Type} {places : List Position}

/-- Whatever the run starts from, it fails only at one of the places. -/
def FaultsAt (x : Run α) (places : List Position) : Prop :=
  ∀ m fault m', x m = .error fault m' → fault.position ∈ places

theorem FaultsAt.mono {x : Run α} {places' : List Position} (h : x.FaultsAt places)
    (hsubset : places ⊆ places') : x.FaultsAt places' :=
  fun m fault m' hrun => hsubset (h m fault m' hrun)

theorem faultsAt_pure (a : α) : (pure a : Run α).FaultsAt places := by
  rintro m fault m' ⟨⟩

theorem faultsAt_get : (get : Run Machine).FaultsAt places := by
  rintro m fault m' ⟨⟩

theorem faultsAt_set (m : Machine) : (set m : Run PUnit).FaultsAt places := by
  rintro _ fault m' ⟨⟩

theorem faultsAt_throw {fault : Diagnostic} (h : fault.position ∈ places) :
    (throw fault : Run α).FaultsAt places := by
  rintro m _ m' ⟨⟩
  exact h

theorem faultsAt_lift {x : Except Diagnostic α} (h : FailsAt x places) :
    (lift x).FaultsAt places := by
  cases x with
  | ok a => exact faultsAt_pure a
  | error fault => exact faultsAt_throw (h fault rfl)

theorem FaultsAt.bind {x : Run α} {f : α → Run β} (hx : x.FaultsAt places)
    (hf : ∀ a, (f a).FaultsAt places) : (x >>= f).FaultsAt places := by
  intro m fault m' hrun
  cases h : x m with
  | ok a m'' =>
    rw [bind_eq_of_ok h] at hrun
    exact hf a m'' fault m' hrun
  | error fault' m'' =>
    rw [bind_eq_of_error h] at hrun
    cases hrun
    exact hx m fault m' h

theorem faultsAt_eval (e : Expr) : (eval e).FaultsAt e.places :=
  faultsAt_get.bind fun m => faultsAt_lift (e.failsAt_eval m.store)

theorem faultsAt_declare (name : String) (value : Value) :
    (declare name value).FaultsAt places := by
  rintro m fault m' ⟨⟩

theorem faultsAt_store {target : Identifier} (h : target.position ∈ places) (value : Value) :
    (store target value).FaultsAt places := by
  unfold store
  refine faultsAt_get.bind fun m => ?_
  refine (faultsAt_lift (m.store.failsAt_lookup target.name h)).bind fun old => ?_
  refine (faultsAt_lift (failsAt_placed h _)).bind fun converted => ?_
  exact faultsAt_declare target.name converted

theorem faultsAt_write (text : String) {position : Position} (h : position ∈ places) :
    (write text position).FaultsAt places := by
  unfold write
  refine faultsAt_get.bind fun m => ?_
  split
  · split
    · exact faultsAt_pure ()
    · exact faultsAt_throw h
  · exact faultsAt_set _

theorem faultsAt_nextWord {position : Position} (h : position ∈ places) :
    (nextWord position).FaultsAt places := by
  unfold nextWord
  refine faultsAt_get.bind fun m => ?_
  refine (faultsAt_set _).bind fun _ => ?_
  exact faultsAt_lift (failsAt_placed h _)

theorem faultsAt_bound {counter : Identifier} {e : Expr} (hcounter : counter.position ∈ places)
    (he : e.places ⊆ places) : (bound counter e).FaultsAt places := by
  refine ((faultsAt_eval e).mono he).bind fun value => ?_
  exact faultsAt_lift (failsAt_placed hcounter _)

theorem faultsAt_rounds {round : Int32 → Run Unit} (h : ∀ i, (round i).FaultsAt places) (n : Nat)
    (i : Int32) : (rounds round n i).FaultsAt places := by
  induction n generalizing i with
  | zero => exact faultsAt_pure ()
  | succ n ih => exact (h i).bind fun _ => ih (i + 1)

end Run

mutual

/-- A statement fails at one of its own places. -/
theorem Statement.faultsAt_exec : ∀ v : Statement, v.exec.FaultsAt v.places
  | .declaration name position ty none => by
    rw [Statement.exec]
    exact (Run.faultsAt_pure _).bind fun value => Run.faultsAt_declare name value
  | .declaration name position ty (some e) => by
    rw [Statement.exec]
    refine ((Run.faultsAt_eval e).mono (List.subset_cons_self _ _)).bind fun value => ?_
    refine (Run.faultsAt_lift (failsAt_placed List.mem_cons_self _)).bind fun converted => ?_
    exact Run.faultsAt_declare name converted
  | .assignment target value => by
    rw [Statement.exec]
    refine ((Run.faultsAt_eval value).mono (List.subset_cons_self _ _)).bind fun v => ?_
    exact Run.faultsAt_store List.mem_cons_self v
  | .loop counter start stop body => by
    have hcounter : counter.position ∈ (Statement.loop counter start stop body).places :=
      List.mem_cons_self
    have hparts : start.places ++ stop.places ++ Block.places body ⊆
        (Statement.loop counter start stop body).places := List.subset_cons_self _ _
    obtain ⟨hbounds, hbody⟩ := List.append_subset.1 hparts
    obtain ⟨hstart, hstop⟩ := List.append_subset.1 hbounds
    rw [Statement.exec]
    refine (Run.faultsAt_bound hcounter hstart).bind fun first => ?_
    refine (Run.faultsAt_bound hcounter hstop).bind fun last => ?_
    refine (Run.faultsAt_store hcounter _).bind fun _ => ?_
    refine Run.faultsAt_rounds (fun i => ?_) _ first
    refine (Run.faultsAt_store hcounter _).bind fun _ => ?_
    exact (Block.faultsAt_exec body).mono hbody
  | .print value position => by
    rw [Statement.exec]
    refine ((Run.faultsAt_eval value).mono (List.subset_cons_self _ _)).bind fun v => ?_
    exact Run.faultsAt_write v.text List.mem_cons_self
  | .read target => by
    rw [Statement.exec]
    refine (Run.faultsAt_nextWord List.mem_cons_self).bind fun word => ?_
    exact Run.faultsAt_store List.mem_cons_self _
  | .assert condition position => by
    rw [Statement.exec]
    refine Run.faultsAt_get.bind fun m => ?_
    refine (Run.faultsAt_lift (failsAt_checkAssertion m.store condition position)).bind
      fun holds => ?_
    exact Run.faultsAt_write (assertionReport holds) List.mem_cons_self

/-- A block fails at a place of one of its statements. -/
theorem Block.faultsAt_exec : ∀ b : Block, (Block.exec b).FaultsAt (Block.places b)
  | [] => Run.faultsAt_pure ()
  | v :: rest => by
    rw [Block.exec]
    refine (v.faultsAt_exec.mono (List.subset_append_left _ _)).bind fun _ => ?_
    exact (Block.faultsAt_exec rest).mono (List.subset_append_right _ _)

end

/-- Every reported fault and every fault of a run points into the source: it is at the place of a
token, and attaching it to the source adds the line of that place, which is long enough. -/
theorem points_into_source (source : String) (types : TypeTable) (fault : Diagnostic)
    (h : fault ∈ (parseText source types).diagnostics ∨
      ∃ m m', (parseText source types).program.exec m = .error fault m') :
    (∃ token ∈ tokenize source, fault.position = token.position) ∧ 1 ≤ fault.position.line ∧
      ∃ line, (Text.lines source)[fault.position.line - 1]? = some line ∧
        (∀ file, (fault.inSource file source).sourceLine = some line) ∧
        1 ≤ fault.position.column ∧ fault.position.column ≤ line.length := by
  obtain ⟨hdiagnostics, hstatements⟩ := Parser.places_parseTokens (tokenize source) types
  rw [← Parser.parseText_eq] at hdiagnostics hstatements
  have hmem : fault.position ∈ (tokenize source).map Token.position := by
    rcases h with h | ⟨m, m', hrun⟩
    · exact hdiagnostics fault h
    · exact hstatements (Block.faultsAt_exec _ m fault m' hrun)
  obtain ⟨token, htoken, hposition⟩ := List.mem_map.1 hmem
  obtain ⟨hline, hcolumn, line, hlookup, hlength⟩ := Lexer.exists_line_of_mem_tokenize htoken
  rw [hposition] at hline hcolumn hlookup hlength
  refine ⟨⟨token, htoken, hposition.symm⟩, hline, line, hlookup, fun file => ?_, hcolumn, hlength⟩
  have hne : fault.position.line ≠ 0 := by omega
  simp [Diagnostic.inSource, hne, hlookup]

/-- A division by zero on the second line of a text. -/
theorem points_into_second_line :
    let source := "var x : int;\nprint 1 / x;"
    let program := (parseText source).program
    ∃ fault m', program.exec (.initial .empty) = .error fault m' ∧
      (∃ token ∈ tokenize source, fault.position = token.position) ∧ 1 ≤ fault.position.line ∧
      ∃ line, (Text.lines source)[fault.position.line - 1]? = some line ∧
        (∀ file, (fault.inSource file source).sourceLine = some line) ∧
        1 ≤ fault.position.column ∧ fault.position.column ≤ line.length := by
  intro source program
  have hfails : program.exec.run' (.initial .empty) = none := by decide +kernel
  cases hrun : program.exec (.initial .empty) with
  | ok value m' =>
    have hvalue : program.exec.run' (.initial .empty) =
        EStateM.run' (fun _ => program.exec (.initial .empty)) (.initial .empty) := rfl
    rw [hvalue, hrun] at hfails
    cases hfails
  | error fault m' =>
    exact ⟨fault, m', rfl, points_into_source source .empty fault (.inr ⟨_, m', hrun⟩)⟩

end MiniPL
