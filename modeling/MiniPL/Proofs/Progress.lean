import MiniPL.Proofs.Demand
import MiniPL.Proofs.Walking

/-!
# Reading makes progress and does not cascade

A rule never steps over the end of the input, and every round of a block that does not end it steps
over the token in front of which it starts (`round_advances`).  So each token is requested at most
once, and none behind the end of the input.

Each statement that is read and each report pays with a token that is stepped over, so that the
tokens left and the reports together never grow (`State.weight`).  The one report that costs no
token is that of a keyword that starts no statement, which stays (`State.IsBarred`); the loop around
pays for it with that keyword when it resumes.

Main statement: `parse_progress`.
-/

namespace MiniPL.Parser

/-! ### Requests -/

namespace OnDemand

section
variable {σ : Type} [TokenStream σ] {t u : Tape σ}

/-- What is reached is a later part of what is ahead. -/
theorem Tape.Reaches.exists_ahead_eq (h : t.Reaches u) : ∃ passed, t.ahead = passed ++ u.ahead := by
  induction h with
  | refl => exact ⟨[], rfl⟩
  | @step t u hkind _ ih =>
    obtain ⟨passed, hpassed⟩ := ih
    exact ⟨t.current :: passed, by rw [ahead_advance hkind, hpassed, List.cons_append]⟩

/-- A round ends its block where it stands, or goes on behind the current token. -/
def Round.Advances {c : Cursor σ} : Round c → Prop
  | .leaves d _ => d.tape = c.tape
  | .goesOn _ d _ => ∃ passed, c.tape.ahead = c.current :: (passed ++ d.tape.ahead)

theorem advances_goesOn {c d : Cursor σ} (statement? : Option Statement)
    (h : c.tape.Passes d.tape) : (Round.goesOn statement? d h).Advances := by
  obtain ⟨passed, hpassed⟩ := h.reaches.exists_ahead_eq
  exact ⟨passed, by rw [Tape.ahead_advance h.kind_ne_eof, hpassed]; rfl⟩

theorem round_advances (inLoop : Bool) (c : Cursor σ) : (round inLoop c).Advances := by
  rw [round]
  split
  · exact rfl
  split
  · exact rfl
  split
  · exact advances_goesOn _ _
  split
  · split
    · exact advances_goesOn _ _
    · exact advances_goesOn _ _
  · split
    · exact rfl
    · exact advances_goesOn _ _

end

/-- Stepping over a token requests at most one from a list. -/
theorem Tape.exists_stream_eq (t : Tape (List Token)) :
    ∃ requested, t.stream = requested ++ t.advance.stream ∧ requested.length ≤ 1 := by
  obtain ⟨current, stream⟩ := t
  cases stream with
  | nil => exact ⟨[], rfl, Nat.zero_le 1⟩
  | cons token rest => exact ⟨[token], rfl, Nat.le_refl 1⟩

/-- Each request pays with a token in front of the end of the input. -/
theorem Tape.Reaches.exists_requested {t u : Tape (List Token)} (h : t.Reaches u) :
    ∃ requested, t.stream = requested ++ u.stream ∧
      requested.length + u.ahead.length ≤ t.ahead.length := by
  induction h with
  | refl => exact ⟨[], rfl, by simp⟩
  | @step t u hkind _ ih =>
    obtain ⟨first, hfirst, hle⟩ := t.exists_stream_eq
    obtain ⟨requested, hrequested, hlength⟩ := ih
    refine ⟨first ++ requested, by rw [hfirst, hrequested, List.append_assoc], ?_⟩
    rw [ahead_advance hkind, List.length_append, List.length_cons]
    omega

/-- Nothing behind the end of the input is requested. -/
theorem exists_requested_whole (tokens : List Token) (types : TypeTable) :
    ∃ requested, tokens = requested ++ (whole tokens types).after.tape.stream ∧
      requested.length ≤ (tokens.takeWhile fun token => token.kind != .eof).length + 1 := by
  obtain ⟨first, hfirst, hle⟩ := Tape.exists_stream_eq ⟨.eof .start, tokens⟩
  obtain ⟨requested, hrequested, hlength⟩ := (whole tokens types).reaches.exists_requested
  refine ⟨first ++ requested, ?_, ?_⟩
  · rw [List.append_assoc, ← hrequested]
    exact hfirst
  · have hahead : (Cursor.initial types tokens).tape.ahead =
        tokens.takeWhile fun token => token.kind != .eof := by
      rw [Cursor.initial, Tape.ahead_initial, TokenStream.drain_list]
    rw [hahead] at hlength
    rw [List.length_append]
    omega

end OnDemand

/-! ### What stands behind the end of the input -/

theorem takeWhile_append_eof (front behind : List Token) (lexeme : String) (position : Position) :
    (front ++ ⟨.eof, lexeme, position⟩ :: behind).takeWhile (fun token => token.kind != .eof) =
      front.takeWhile fun token => token.kind != .eof := by
  induction front with
  | nil => rfl
  | cons token front ih =>
    rw [List.cons_append, List.takeWhile_cons, List.takeWhile_cons, ih]

theorem endOf_append_eof (front behind : List Token) (lexeme : String) (position : Position) :
    endOf (front ++ ⟨.eof, lexeme, position⟩ :: behind) =
      endOf (front ++ [⟨.eof, lexeme, position⟩]) := by
  induction front with
  | nil => rw [List.nil_append, List.nil_append, endOf_cons_of_eof rfl, endOf_cons_of_eof rfl]
  | cons token front ih =>
    rw [List.cons_append, List.cons_append]
    by_cases heof : token.kind = .eof
    · rw [endOf_cons_of_eof heof, endOf_cons_of_eof heof]
    · cases front with
      | nil => exact (endOf_cons_cons heof _ _).trans (ih.trans (endOf_cons_cons heof _ _).symm)
      | cons next front =>
        exact (endOf_cons_cons heof _ _).trans (ih.trans (endOf_cons_cons heof _ _).symm)

/-- The parser starts alike in front of all tokens that go on differently behind their first end. -/
theorem State.initial_append_eof (types : TypeTable) (front behind : List Token) (lexeme : String)
    (position : Position) :
    State.initial types (front ++ ⟨.eof, lexeme, position⟩ :: behind) =
      State.initial types (front ++ [⟨.eof, lexeme, position⟩]) := by
  unfold State.initial
  simp only [takeWhile_append_eof, endOf_append_eof front behind]

/-! ### What a report costs -/

namespace State

variable {s t : State}

/-- The tokens still to read and the reports made so far. -/
def weight (s : State) : Nat :=
  s.rest.length + s.diagnostics.length

theorem weight_advance (hrest : s.rest ≠ []) : s.advance.weight + 1 = s.weight := by
  have hpos : 0 < s.rest.length := List.length_pos_iff.2 hrest
  have htail : s.advance.rest.length = s.rest.length - 1 := List.length_tail
  unfold weight
  rw [htail, diagnostics_advance]
  omega

theorem weight_report (s : State) (fault : Diagnostic) :
    (s.report fault).weight = s.weight + 1 := by
  unfold weight
  rw [rest_report, diagnostics_report, List.length_append, List.length_singleton, Nat.add_assoc]

theorem weight_synchronize_le (s : State) : s.synchronize.weight ≤ s.weight :=
  Nat.add_le_add_right (behindSemicolon_suffix s.rest).length_le _

theorem weight_synchronize_lt (hrest : s.rest ≠ []) : s.synchronize.weight < s.weight :=
  Nat.add_lt_add_right (length_behindSemicolon_lt hrest) _

theorem weight_skipHeader_le (s : State) : s.skipHeader.weight ≤ s.weight :=
  Nat.add_le_add_right (behindHeader_suffix s.rest).length_le _

/-- Reporting and resuming costs nothing in front of a token. -/
theorem weight_resume_le (hrest : s.rest ≠ []) (fault : Diagnostic) :
    (s.report fault).synchronize.weight ≤ s.weight := by
  have hlt : (s.report fault).synchronize.weight < (s.report fault).weight :=
    weight_synchronize_lt hrest
  rw [weight_report] at hlt
  omega

theorem weight_resume_le_succ (s : State) (fault : Diagnostic) :
    (s.report fault).synchronize.weight ≤ s.weight + 1 := by
  have hle : (s.report fault).synchronize.weight ≤ (s.report fault).weight :=
    weight_synchronize_le _
  rwa [weight_report] at hle

theorem Walks.weight_le (h : s.Walks t) : t.weight ≤ s.weight := by
  induction h with
  | refl => exact Nat.le_refl _
  | take hrest _ ih =>
    have hadvance := weight_advance hrest
    omega
  | @standIn s t hkind _ ih =>
    have hrest : s.rest ≠ [] := rest_ne_nil_of_kind hkind (by decide)
    have hadvance := weight_advance (s := s.report (.unclassified s.current)) hrest
    rw [weight_report] at hadvance
    omega
  | declare name ty _ ih => exact ih

/-- Who walks on from a token that could be classified takes it, for the price of one. -/
theorem Walks.rest_eq_or_weight_lt (h : s.Walks t) (hkind : s.current.kind ≠ .unknown) :
    t.rest = s.rest ∨ t.weight < s.weight := by
  induction h with
  | refl => exact .inl rfl
  | take hrest h ih =>
    have hadvance := weight_advance hrest
    have hle := h.weight_le
    exact .inr (by omega)
  | standIn hunknown => exact absurd hunknown hkind
  | declare name ty _ ih => exact ih hkind

/-- In front of a keyword that ends a block and is not the `end` of its loop. -/
def IsBarred (inLoop : Bool) (s : State) : Prop :=
  ∃ keyword, s.current.kind = .keyword keyword ∧ (inLoop = true → keyword ≠ .end)

theorem IsBarred.rest_ne_nil {inLoop : Bool} (h : s.IsBarred inLoop) : s.rest ≠ [] := by
  obtain ⟨keyword, hkind, -⟩ := h
  exact rest_ne_nil_of_kind hkind (by simp)

theorem IsBarred.kind_ne_unknown {inLoop : Bool} (h : s.IsBarred inLoop) :
    s.current.kind ≠ .unknown := by
  obtain ⟨keyword, hkind, -⟩ := h
  rw [hkind]
  simp

end State

/-- Whether the statements and reports of a block are paid for, but for a keyword that bars it. -/
def IsPaid (inLoop : Bool) (s : State) (b : Block) (t : State) : Prop :=
  (Block.allStatements b).length + t.weight ≤ s.weight ∨
    (Block.allStatements b).length + t.weight ≤ s.weight + 1 ∧ t.IsBarred inLoop

section
variable {inLoop : Bool} {s t u v w : State} {b body : Block}

/-- A round that reads nothing is paid for if the weight does not grow. -/
theorem IsPaid.skip (h : IsPaid inLoop u b t) (hle : u.weight ≤ s.weight) :
    IsPaid inLoop s b t := by
  rcases h with h | ⟨h, hbarred⟩
  · exact .inl (by omega)
  · exact .inr ⟨by omega, hbarred⟩

/-- A round that reads a statement is paid for if the weight gives way for it. -/
theorem IsPaid.cons {statement : Statement} (h : IsPaid inLoop u b t)
    (hle : statement.allStatements.length + u.weight ≤ s.weight) :
    IsPaid inLoop s (statement :: b) t := by
  have hlength : (Block.allStatements (statement :: b)).length =
      statement.allStatements.length + (Block.allStatements b).length := List.length_append
  unfold IsPaid
  rw [hlength]
  rcases h with h | ⟨h, hbarred⟩
  · exact .inl (by omega)
  · exact .inr ⟨by omega, hbarred⟩

/-- The body of a loop that can be closed is paid for. -/
theorem IsPaid.le_of_closes (h : IsPaid true u body v)
    (hend : v.current.kind = .keyword .end ∨ v.current.kind = .unknown) :
    (Block.allStatements body).length + v.weight ≤ u.weight := by
  rcases h with h | ⟨-, keyword, hkind, hne⟩
  · exact h
  · rw [hkind] at hend
    rcases hend with hend | hend
    · cases hend
      exact absurd rfl (hne rfl)
    · cases hend

/-- A loop that is left out pays for its report, and for the keyword that bars its body. -/
theorem IsPaid.weight_resume_le (h : IsPaid true u body v) (hclose : v.Walks w)
    (fault : Diagnostic) : (w.report fault).synchronize.weight ≤ u.weight + 1 := by
  have hsucc : (w.report fault).synchronize.weight ≤ w.weight + 1 := w.weight_resume_le_succ fault
  have hle : w.weight ≤ v.weight := hclose.weight_le
  rcases h with h | ⟨h, hbarred⟩
  · omega
  -- the keyword that bars the body is either still there to be skipped, or has been taken
  rcases hclose.rest_eq_or_weight_lt hbarred.kind_ne_unknown with hrest | hlt
  · have hresume : (w.report fault).synchronize.weight ≤ w.weight :=
      State.weight_resume_le (hrest ▸ hbarred.rest_ne_nil) fault
    omega
  · omega

end

/-- Every block is paid for. -/
theorem BlockWalk.isPaid {inLoop : Bool} {s t : State} {b : Block} (h : BlockWalk inLoop s b t) :
    IsPaid inLoop s b t := by
  induction h with
  | ends => exact .inl (Nat.le_of_eq (Nat.zero_add _))
  | stops => exact .inl (Nat.le_of_eq (Nat.zero_add _))
  | @unrecognized inLoop s keyword hkind hend =>
    have hreport := s.weight_report (.unrecognizedStatement s.current)
    have hle : 0 + (s.report (.unrecognizedStatement s.current)).weight ≤ s.weight + 1 :=
      Nat.le_of_eq ((Nat.zero_add _).trans hreport)
    exact .inr ⟨hle, keyword, hkind, hend⟩
  | @unclassified inLoop s t b hkind _ ih =>
    have hrest : s.rest ≠ [] := State.rest_ne_nil_of_kind hkind (by decide)
    have hadvance := State.weight_advance (s := s.report (.unclassified s.current)) hrest
    rw [State.weight_report] at hadvance
    exact ih.skip (by omega)
  | stray hrest _ ih => exact ih.skip (State.weight_resume_le hrest _)
  | simple hrest hloop hwalks _ ih =>
    have hadvance := State.weight_advance hrest
    have hle := hwalks.weight_le
    refine ih.cons ?_
    rw [Statement.allStatements_of_not_isLoop hloop, List.length_singleton]
    omega
  | @faulty inLoop s t u fault b hrest hwalks _ _ ih =>
    have hadvance := State.weight_advance hrest
    have hle := hwalks.weight_le
    have hresume := u.weight_resume_le_succ fault
    exact ih.skip (by omega)
  | loop hrest hheader _ hend hclose _ ihbody ih =>
    have hadvance := State.weight_advance hrest
    have hle := hheader.weight_le
    have hbody := ihbody.le_of_closes hend
    have hle' := hclose.weight_le
    refine ih.cons ?_
    rw [Statement.allStatements, List.length_cons]
    omega
  | @unclosed inLoop s t u v w fault body b hrest hheader _ hclose _ _ ihbody ih =>
    have hadvance := State.weight_advance hrest
    have hle := hheader.weight_le
    have hresume := ihbody.weight_resume_le hclose fault
    exact ih.skip (by omega)
  | @faultyHeader inLoop s t u v fault body b hkind hheader _ _ ihbody ih =>
    have hadvance := State.weight_advance (State.rest_ne_nil_of_kind hkind (by decide))
    have hle := ((Rule.walks_loopHeader _).error _ _ hheader).1.weight_le
    have hskip := u.weight_skipHeader_le
    have hresume := ihbody.weight_resume_le (.refl v) fault
    exact ih.skip (by omega)

/-- There are no more statements and reports than tokens in front of the end of the input. -/
theorem length_parseTokens_le (tokens : List Token) (types : TypeTable) :
    (Block.allStatements (parseTokens tokens types).program.statements).length +
        (parseTokens tokens types).diagnostics.length ≤
      (tokens.takeWhile fun token => token.kind != .eof).length := by
  have hpaid : IsPaid false (.initial types tokens) (parseTokens tokens types).program.statements
      (blockRun false (.initial types tokens)).2 := (blockWalk_blockRun false _).isPaid
  have hweight : (State.initial types tokens).weight =
      (tokens.takeWhile fun token => token.kind != .eof).length := Nat.add_zero _
  have hafter : (blockRun false (.initial types tokens)).2.weight =
      (blockRun false (.initial types tokens)).2.rest.length +
        (parseTokens tokens types).diagnostics.length := rfl
  rcases hpaid with h | ⟨h, hbarred⟩
  · omega
  · -- no loop is around, but the keyword that bars the program is left over
    have hpos := List.length_pos_iff.2 hbarred.rest_ne_nil
    omega

/-- Reading a list of tokens steps over the current token in every round that does not end its
block, requests nothing behind the first end of the input and does not depend on what stands there,
and gives no more statements and reports than there are tokens in front of that end. -/
theorem parse_progress (tokens : List Token) (types : TypeTable) :
    OnDemand.parse tokens types = parse tokens types ∧
      (∀ inLoop (c : OnDemand.Cursor (List Token)), (OnDemand.round inLoop c).Advances) ∧
      (∃ requested, tokens = requested ++ (OnDemand.whole tokens types).after.tape.stream ∧
        requested.length ≤ (tokens.takeWhile fun token => token.kind != .eof).length + 1) ∧
      (∀ front lexeme position behind,
        parse (front ++ (⟨.eof, lexeme, position⟩ : Token) :: behind) types =
          parse (front ++ [(⟨.eof, lexeme, position⟩ : Token)]) types) ∧
      (Block.allStatements (parse tokens types).program.statements).length +
          (parse tokens types).diagnostics.length ≤
        (tokens.takeWhile fun token => token.kind != .eof).length := by
  have hparse (tokens : List Token) : parse tokens types = parseTokens tokens types := by
    rw [parse, TokenStream.drain_list]
  refine ⟨OnDemand.parse_eq tokens types, OnDemand.round_advances,
    OnDemand.exists_requested_whole tokens types, ?_, ?_⟩
  · intro front lexeme position behind
    rw [hparse, hparse]
    unfold parseTokens
    rw [State.initial_append_eof]
  · rw [hparse]
    exact length_parseTokens_le tokens types

end MiniPL.Parser
