import MiniPL.Proofs.Demand
import MiniPL.Proofs.Sentences
import MiniPL.Proofs.Walking

/-!
# The order of reports

The tokens of a text stand in the order of their places, and a rule reports what it meets as it
goes along, so that reports come in the order of their places.  The exception is a loop with a
faulty header: its body is read before the fault of the header is reported, and what is reported
in the body comes first (`InOrder.held`).

Main statements: `Parser.inOrder_parseText`, and `Parser.pairwise_parseText`: of two reports that
are not in order, the second is the fault of a loop header.
-/

namespace MiniPL

/-! ### The order of places -/

namespace Position

/-- Whether a place is in front of another or the same. -/
def Precedes (p q : Position) : Prop :=
  p.line < q.line ∨ p.line = q.line ∧ p.column ≤ q.column

instance (p q : Position) : Decidable (p.Precedes q) :=
  inferInstanceAs (Decidable (_ ∨ _))

variable {p q r : Position}

theorem Precedes.refl (p : Position) : p.Precedes p :=
  .inr ⟨rfl, Nat.le_refl _⟩

theorem Precedes.trans (h : p.Precedes q) (k : q.Precedes r) : p.Precedes r := by
  unfold Precedes at *
  omega

theorem precedes_after (p : Position) (c : Char) : p.Precedes (p.after c) := by
  unfold Precedes after
  split
  · exact .inl (Nat.lt_succ_self _)
  · exact .inr ⟨rfl, Nat.le_succ _⟩

theorem precedes_advance (p : Position) (cs : List Char) : p.Precedes (p.advance cs) := by
  induction cs generalizing p with
  | nil => exact .refl p
  | cons c cs ih => exact (p.precedes_after c).trans (ih _)

end Position

/-- The tokens of a text stand in the order of their places. -/
theorem Lexer.Splits.pairwise {before cs : List Char} {tokens : List Token}
    (h : Splits before cs tokens) :
    (∀ token ∈ tokens, (placeAfter before).Precedes token.position) ∧
      tokens.Pairwise fun s t => s.position.Precedes t.position := by
  induction h with
  | last => exact ⟨List.forall_mem_nil _, .nil⟩
  | @token before gap raw rest token tokens _ _ _ hposition _ ih =>
    obtain ⟨hfrom, hpairwise⟩ := ih
    have hgap : (placeAfter before).Precedes token.position := by
      rw [hposition, ← advance_placeAfter]
      exact Position.precedes_advance _ gap
    have hraw : ∀ t ∈ tokens, token.position.Precedes t.position := by
      intro t hmem
      have hplace : token.position.Precedes (placeAfter (before ++ gap ++ raw)) := by
        rw [hposition, ← advance_placeAfter (before ++ gap) raw]
        exact Position.precedes_advance _ raw
      exact hplace.trans (hfrom t hmem)
    constructor
    · exact List.forall_mem_cons.2 ⟨hgap, fun t hmem => hgap.trans (hraw t hmem)⟩
    · exact .cons hraw hpairwise

/-! ### Reports in order -/

/-- Reports in the order of their places, from one place on and up to another, except that a report
that is held back comes behind reports at later places. -/
inductive InOrder (isHeld : Diagnostic → Prop) : Position → List Diagnostic → Position → Prop
  | nil {p q : Position} (h : p.Precedes q) : InOrder isHeld p [] q
  | cons {p q : Position} {fault : Diagnostic} {faults : List Diagnostic}
    (hp : p.Precedes fault.position) (h : InOrder isHeld fault.position faults q) :
    InOrder isHeld p (fault :: faults) q
  | held {p q r : Position} {fault : Diagnostic} {inner faults : List Diagnostic}
    (hp : p.Precedes fault.position) (hheld : isHeld fault)
    (hinner : InOrder isHeld fault.position inner q) (h : InOrder isHeld q faults r) :
    InOrder isHeld p (inner ++ fault :: faults) r

namespace InOrder

variable {isHeld : Diagnostic → Prop} {p q r : Position} {faults faults' : List Diagnostic}

theorem of_precedes (hpq : p.Precedes q) (h : InOrder isHeld q faults r) :
    InOrder isHeld p faults r := by
  cases h with
  | nil h => exact .nil (hpq.trans h)
  | cons hp h => exact .cons (hpq.trans hp) h
  | held hp hheld hinner h => exact .held (hpq.trans hp) hheld hinner h

theorem append (h : InOrder isHeld p faults q) (k : InOrder isHeld q faults' r) :
    InOrder isHeld p (faults ++ faults') r := by
  induction h with
  | nil h => exact k.of_precedes h
  | cons hp _ ih => exact .cons hp (ih k)
  | held hp hheld hinner _ _ ih =>
    rw [List.append_assoc, List.cons_append]
    exact .held hp hheld hinner (ih k)

theorem precedes (h : InOrder isHeld p faults q) : p.Precedes q := by
  induction h with
  | nil h => exact h
  | cons hp _ ih => exact hp.trans ih
  | held hp _ _ _ ihinner ih => exact hp.trans (ihinner.trans ih)

/-- All reports are between the two places, those that are held back too. -/
theorem between (h : InOrder isHeld p faults q) :
    ∀ fault ∈ faults, p.Precedes fault.position ∧ fault.position.Precedes q := by
  induction h with
  | nil => exact List.forall_mem_nil _
  | cons hp h ih =>
    refine List.forall_mem_cons.2 ⟨⟨hp, h.precedes⟩, fun fault hmem => ?_⟩
    exact ⟨hp.trans (ih fault hmem).1, (ih fault hmem).2⟩
  | held hp _ hinner h ihinner ih =>
    refine List.forall_mem_append.2 ⟨fun fault hmem => ?_, List.forall_mem_cons.2 ⟨?_, ?_⟩⟩
    · exact ⟨hp.trans (ihinner fault hmem).1, (ihinner fault hmem).2.trans h.precedes⟩
    · exact ⟨hp, hinner.precedes.trans h.precedes⟩
    · intro fault hmem
      exact ⟨hp.trans (hinner.precedes.trans (ih fault hmem).1), (ih fault hmem).2⟩

/-- Of two reports that are not in the order of their places, the second was held back. -/
theorem pairwise (h : InOrder isHeld p faults q) :
    faults.Pairwise fun d e => d.position.Precedes e.position ∨ isHeld e := by
  induction h with
  | nil => exact .nil
  | cons hp h ih => exact .cons (fun fault hmem => .inl (h.between fault hmem).1) ih
  | @held p q r fault inner faults hp hheld hinner h ihinner ih =>
    have hbehind : ∀ e ∈ faults, q.Precedes e.position := fun e hmem => (h.between e hmem).1
    -- only the pairs of a report in the body and the fault held back can be out of order
    refine List.pairwise_append.2 ⟨ihinner, .cons (fun e hmem => ?_) ih, fun d hd => ?_⟩
    · exact .inl (hinner.precedes.trans (hbehind e hmem))
    · refine List.forall_mem_cons.2 ⟨.inr hheld, fun e hmem => ?_⟩
      exact .inl ((hinner.between d hd).2.trans (hbehind e hmem))

end InOrder

namespace Parser

/-! ### States in order -/

namespace State

variable {isHeld : Diagnostic → Prop} {s t u : State}

/-- The tokens still to read stand in the order of their places, and the end of the input behind
them. -/
structure IsSorted (s : State) : Prop where
  rest : s.rest.Pairwise fun a b => a.position.Precedes b.position
  eof : ∀ token ∈ s.rest, token.position.Precedes s.eof.position

theorem IsSorted.of_reaches (hs : s.IsSorted) (h : s.Reaches t) : t.IsSorted where
  rest := hs.rest.sublist h.rest.sublist
  eof token hmem := h.eof ▸ hs.eof token (h.rest.subset hmem)

/-- Reading on leads to later places. -/
theorem IsSorted.precedes (hs : s.IsSorted) (h : s.Reaches t) :
    s.current.position.Precedes t.current.position := by
  obtain ⟨passed, hpassed⟩ := h.rest
  cases hpassed' : passed with
  | nil =>
    rw [hpassed', List.nil_append] at hpassed
    unfold current
    rw [hpassed, h.eof]
    exact .refl _
  | cons token passed' =>
    rw [hpassed', List.cons_append] at hpassed
    rw [current_eq hpassed.symm]
    cases hrest : t.rest with
    | nil =>
      have hcurrent : t.current = s.eof := by
        unfold current
        rw [hrest, ← h.eof]
        rfl
      rw [hcurrent]
      exact hs.eof token (hpassed ▸ List.mem_cons_self)
    | cons next rest =>
      rw [current_eq hrest]
      have hsorted := hs.rest
      rw [← hpassed, List.pairwise_cons] at hsorted
      exact hsorted.1 next (List.mem_append_right _ (hrest ▸ List.mem_cons_self))

/-- A way from one state to another on which reports are made in order, from the place of the one up
to that of the other. -/
structure ReportsInOrder (isHeld : Diagnostic → Prop) (s t : State) : Prop where
  reaches : s.Reaches t
  inOrder : s.IsSorted → ∃ faults, t.diagnostics = s.diagnostics ++ faults ∧
    InOrder isHeld s.current.position faults t.current.position

theorem ReportsInOrder.trans (h : s.ReportsInOrder isHeld t) (k : t.ReportsInOrder isHeld u) :
    s.ReportsInOrder isHeld u where
  reaches := h.reaches.trans k.reaches
  inOrder hs := by
    obtain ⟨faults, hfaults, horder⟩ := h.inOrder hs
    obtain ⟨faults', hfaults', horder'⟩ := k.inOrder (hs.of_reaches h.reaches)
    exact ⟨faults ++ faults', by rw [hfaults', hfaults, List.append_assoc], horder.append horder'⟩

/-- Nothing is reported. -/
theorem Reaches.reportsInOrder (h : s.Reaches t) (hdiagnostics : t.diagnostics = s.diagnostics) :
    s.ReportsInOrder isHeld t where
  reaches := h
  inOrder hs := ⟨[], by rw [hdiagnostics, List.append_nil], .nil (hs.precedes h)⟩

theorem reportsInOrder_advance (s : State) : s.ReportsInOrder isHeld s.advance :=
  s.reaches_advance.reportsInOrder rfl

/-- A fault at the current token is reported in order. -/
theorem reportsInOrder_report {fault : Diagnostic} (h : fault.position = s.current.position) :
    s.ReportsInOrder isHeld (s.report fault) where
  reaches := s.reaches_report fault
  inOrder _ := ⟨[fault], rfl, .cons (h ▸ .refl _) (.nil (h ▸ .refl _))⟩

/-- A fault at the current token is reported in order, and reading goes on behind the next `;`. -/
theorem reportsInOrder_resume {fault : Diagnostic} (h : fault.position = s.current.position) :
    s.ReportsInOrder isHeld (s.report fault).synchronize :=
  (reportsInOrder_report h).trans ((reaches_synchronize _).reportsInOrder rfl)

/-- A fault may be held back while others are reported. -/
theorem ReportsInOrder.held (h : s.ReportsInOrder isHeld t) {fault : Diagnostic}
    (hfault : fault.position = s.current.position) (hheld : isHeld fault) :
    s.ReportsInOrder isHeld (t.report fault) where
  reaches := h.reaches.trans (t.reaches_report fault)
  inOrder hs := by
    obtain ⟨faults, hfaults, horder⟩ := h.inOrder hs
    refine ⟨faults ++ [fault], by rw [diagnostics_report, hfaults, List.append_assoc], ?_⟩
    exact .held (hfault ▸ .refl _) hheld (hfault ▸ horder) (.nil (.refl _))

theorem Walks.reportsInOrder (h : s.Walks t) : s.ReportsInOrder isHeld t := by
  induction h with
  | refl => exact (Reaches.refl _).reportsInOrder rfl
  | take _ _ ih => exact (reportsInOrder_advance _).trans ih
  | standIn _ _ ih =>
    exact ((reportsInOrder_report rfl).trans (reportsInOrder_advance _)).trans ih
  | @declare s t name ty _ ih => exact ((s.reaches_declare name ty).reportsInOrder rfl).trans ih

end State

/-! ### Faults of loop headers -/

/-- A fault with which the header of a loop is given up, behind one of the tokens. -/
def IsHeaderFault (tokens : List Token) (fault : Diagnostic) : Prop :=
  ∃ s t : State, s.current.kind = .keyword .for ∧ s.rest <:+ tokens ∧
    Rule.loopHeader.run s.advance = .error fault t

section
variable {tokens : List Token} {inLoop : Bool} {s t u : State} {b : Block}

/-- A round in order, and the rounds behind it. -/
theorem State.ReportsInOrder.andThen (h : s.ReportsInOrder (IsHeaderFault tokens) u)
    (hs : s.rest <:+ tokens)
    (k : u.rest <:+ tokens → u.ReportsInOrder (IsHeaderFault tokens) t) :
    s.ReportsInOrder (IsHeaderFault tokens) t :=
  h.trans (k (h.reaches.rest.trans hs))

/-- Blocks report in order, except for the faults of loop headers. -/
theorem BlockWalk.reportsInOrder (h : BlockWalk inLoop s b t) (hs : s.rest <:+ tokens) :
    s.ReportsInOrder (IsHeaderFault tokens) t := by
  induction h with
  | ends => exact (State.Reaches.refl _).reportsInOrder rfl
  | stops => exact (State.Reaches.refl _).reportsInOrder rfl
  | unrecognized => exact State.reportsInOrder_report rfl
  | unclassified _ _ ih =>
    exact ((State.reportsInOrder_report rfl).trans (State.reportsInOrder_advance _)).andThen hs ih
  | stray _ _ ih => exact (State.reportsInOrder_resume rfl).andThen hs ih
  | @simple inLoop s t u v b _ _ hwalks _ ih =>
    have hround : s.ReportsInOrder (IsHeaderFault tokens) u :=
      s.reportsInOrder_advance.trans hwalks.reportsInOrder
    exact hround.andThen hs ih
  | @faulty inLoop s t u fault b _ hwalks hfault _ ih =>
    have hround : s.ReportsInOrder (IsHeaderFault tokens) u :=
      s.reportsInOrder_advance.trans hwalks.reportsInOrder
    exact (hround.trans (State.reportsInOrder_resume hfault)).andThen hs ih
  | @loop inLoop s t u v w _ _ _ body b _ hheader _ _ hclose _ ihbody ih =>
    have hopen : s.ReportsInOrder (IsHeaderFault tokens) u :=
      s.reportsInOrder_advance.trans hheader.reportsInOrder
    exact ((hopen.andThen hs ihbody).trans hclose.reportsInOrder).andThen hs ih
  | @unclosed inLoop s t u v w fault body b _ hheader _ hclose hfault _ ihbody ih =>
    have hopen : s.ReportsInOrder (IsHeaderFault tokens) u :=
      s.reportsInOrder_advance.trans hheader.reportsInOrder
    have hround : s.ReportsInOrder (IsHeaderFault tokens) w :=
      (hopen.andThen hs ihbody).trans hclose.reportsInOrder
    exact (hround.trans (State.reportsInOrder_resume hfault)).andThen hs ih
  | @faultyHeader inLoop s t u v fault body b hkind hheader _ _ ihbody ih =>
    obtain ⟨hwalks, hfault⟩ := (Rule.walks_loopHeader _).error _ _ hheader
    have hopen : s.ReportsInOrder (IsHeaderFault tokens) u :=
      s.reportsInOrder_advance.trans hwalks.reportsInOrder
    have hskip : u.ReportsInOrder (IsHeaderFault tokens) u.skipHeader :=
      u.reaches_skipHeader.reportsInOrder rfl
    -- the body reports from the place of the fault on, while the fault waits
    have hu : u.rest <:+ tokens := hopen.reaches.rest.trans hs
    have hbody : u.ReportsInOrder (IsHeaderFault tokens) v := hskip.andThen hu ihbody
    have hround : s.ReportsInOrder (IsHeaderFault tokens) (v.report fault) :=
      hopen.trans (hbody.held hfault ⟨s, u, hkind, hs, hheader⟩)
    exact (hround.trans ((State.reaches_synchronize _).reportsInOrder rfl)).andThen hs ih

end

/-! ### The reports on a text -/

/-- The end of the input stands behind the last token. -/
theorem precedes_endOf {tokens : List Token}
    (hsorted : tokens.Pairwise fun s t => s.position.Precedes t.position)
    (heof : ∀ token ∈ tokens, token.kind ≠ .eof) :
    ∀ token ∈ tokens, token.position.Precedes (endOf tokens).position := by
  induction hsorted with
  | nil => exact List.forall_mem_nil _
  | @cons token rest hfirst _ ih =>
    obtain ⟨hkind, hkinds⟩ := List.forall_mem_cons.1 heof
    cases rest with
    | nil =>
      rw [endOf_singleton hkind]
      exact List.forall_mem_singleton.2 (.refl _)
    | cons next rest =>
      rw [endOf_cons_cons hkind]
      have hnext := ih hkinds next List.mem_cons_self
      exact List.forall_mem_cons.2
        ⟨(hfirst next List.mem_cons_self).trans hnext, ih hkinds⟩

theorem State.isSorted_initial_tokenize (text : String) (types : TypeTable) :
    (State.initial types (tokenize text)).IsSorted := by
  have hrest := State.rest_initial_tokenize types text
  have hsorted := (Lexer.splits_tokens (.ofText text) [] rfl).pairwise.2
  constructor
  · rw [hrest]
    exact hsorted
  · rw [hrest]
    exact precedes_endOf hsorted fun _ => Lexer.kind_ne_eof_of_mem_tokenize

/-- The reports on a text come in the order of their places, except that the fault of a loop header
comes behind what is reported in the body of its loop. -/
theorem inOrder_parseText (text : String) (types : TypeTable) :
    ∃ p q, InOrder (IsHeaderFault (tokenize text)) p (parseText text types).diagnostics q := by
  have hrest : (State.initial types (tokenize text)).rest <:+ tokenize text :=
    ⟨[], State.rest_initial_tokenize types text⟩
  obtain ⟨faults, hfaults, horder⟩ := ((blockWalk_blockRun false _).reportsInOrder hrest).inOrder
    (State.isSorted_initial_tokenize text types)
  have hdiagnostics : (parseText text types).diagnostics = faults := by
    rw [parseText_eq]
    exact hfaults
  exact ⟨_, _, hdiagnostics ▸ horder⟩

/-- Of two reports on a text that are not in the order of their places, the second is the fault of a
loop header. -/
theorem pairwise_parseText (text : String) (types : TypeTable) :
    (parseText text types).diagnostics.Pairwise fun d e =>
      d.position.Precedes e.position ∨ IsHeaderFault (tokenize text) e := by
  obtain ⟨p, q, horder⟩ := inOrder_parseText text types
  exact horder.pairwise

/-- The fault of a loop header comes behind a later one in the body. -/
theorem not_pairwise_faultyHeader :
    ¬ (parseText "for x do print ; end for;").diagnostics.Pairwise fun d e =>
      d.position.Precedes e.position := by
  decide +kernel

end Parser

end MiniPL
