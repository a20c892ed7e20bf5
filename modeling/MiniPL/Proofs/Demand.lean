import MiniPL.Parser.OnDemand
import MiniPL.Proofs.Relocation
import MiniPL.Proofs.Statements

/-!
# Reading on demand is reading the list of tokens

A cursor stands for the state with the tokens that its stream still has, up to the end of the input
(`Cursor.toState`).  Stepping over a token leads from states to states, so each rule on demand does
to the cursor what the rule of the same name does to its state (`Rule.Follows`): values, faults and
what is left over are the same.

The places of the tokens may be changed on the way to the state.  No rule looks at them, so they
come out changed alike; without a change this compares a stream with its list of tokens, and with
all places made equal it compares two texts.

Main statements: `Rule.follows_expr`, `Rule.follows_statement`, `follows_block`, `follows_parse` and
`parse_eq`.
-/

namespace MiniPL

namespace Parser

/-! ### The end of the input -/

theorem endOf_cons_of_eof {token : Token} (h : token.kind = .eof) (rest : List Token) :
    endOf (token :: rest) = token := by
  have hfind : (token :: rest).find? (·.kind == .eof) = some token :=
    List.find?_cons_of_pos (by simp [h])
  rw [endOf, hfind]

theorem endOf_singleton {token : Token} (h : token.kind ≠ .eof) :
    endOf [token] = .eof token.position := by
  have hfind : [token].find? (·.kind == .eof) = none := by simp [h]
  rw [endOf, hfind]
  rfl

/-- A token in front of others is not the last one. -/
theorem endOf_cons_cons {token : Token} (h : token.kind ≠ .eof) (next : Token) (rest : List Token) :
    endOf (token :: next :: rest) = endOf (next :: rest) := by
  have hfind : (token :: next :: rest).find? (·.kind == .eof) =
      (next :: rest).find? (·.kind == .eof) := List.find?_cons_of_neg (by simp [h])
  rw [endOf, endOf, hfind, List.getLast?_cons_cons]

end Parser

namespace TokenStream

variable {σ : Type} [TokenStream σ] {s s' : σ}

theorem drain_of_hasNext (h : hasNext s = (true, s')) :
    drain s = (nextToken s').1 :: drain (nextToken s').2 := by
  rw [drain]
  split
  · simp_all
  · rw [h]

theorem drain_of_dry (h : hasNext s = (false, s')) : drain s = [] := by
  rw [drain]
  split
  · rfl
  · simp_all

end TokenStream

namespace Parser.OnDemand

variable {σ : Type} [TokenStream σ]

/-! ### The tokens ahead -/

namespace Tape

/-- The token in hand and those that the stream still has. -/
def tokens (t : Tape σ) : List Token :=
  t.current :: TokenStream.drain t.stream

/-- The tokens up to the end of the input. -/
def ahead (t : Tape σ) : List Token :=
  t.tokens.takeWhile fun token => token.kind != .eof

/-- The end of the input. -/
def ending (t : Tape σ) : Token :=
  endOf t.tokens

/-- Stepping over the token in hand leaves what the stream still has, or else the end of the
input. -/
theorem advance_cases (t : Tape σ) :
    t.advance.tokens = TokenStream.drain t.stream ∨
      TokenStream.drain t.stream = [] ∧ t.advance.current = .eof t.current.position := by
  unfold advance
  split
  · rename_i stream hnext
    exact .inl (TokenStream.drain_of_hasNext hnext).symm
  · rename_i stream hnext
    exact .inr ⟨TokenStream.drain_of_dry hnext, rfl⟩

theorem ahead_of_kind_eof {t : Tape σ} (h : t.current.kind = .eof) : t.ahead = [] :=
  List.takeWhile_cons_of_neg (by simp [h])

theorem ahead_of_kind_ne_eof {t : Tape σ} (h : t.current.kind ≠ .eof) :
    t.ahead = t.current :: (TokenStream.drain t.stream).takeWhile fun token => token.kind != .eof :=
  List.takeWhile_cons_of_pos (by simp [h])

theorem ahead_advance {t : Tape σ} (h : t.current.kind ≠ .eof) :
    t.ahead = t.current :: t.advance.ahead := by
  rw [ahead_of_kind_ne_eof h]
  rcases t.advance_cases with hnext | ⟨hdry, hcurrent⟩
  · rw [← hnext]
    rfl
  · rw [hdry, ahead_of_kind_eof (t := t.advance) (by rw [hcurrent]; rfl)]
    rfl

theorem ending_advance {t : Tape σ} (h : t.current.kind ≠ .eof) : t.advance.ending = t.ending := by
  unfold ending
  rcases t.advance_cases with hnext | ⟨hdry, hcurrent⟩
  · have htokens : t.tokens = t.current :: t.advance.tokens := by rw [hnext, tokens]
    rw [htokens]
    exact (endOf_cons_cons h _ _).symm
  · have htokens : t.tokens = [t.current] := by rw [tokens, hdry]
    rw [htokens, endOf_singleton h, tokens, hcurrent]
    exact endOf_cons_of_eof rfl _

theorem Reaches.ending_eq {t u : Tape σ} (h : t.Reaches u) : u.ending = t.ending := by
  induction h with
  | refl => rfl
  | step hkind _ ih => exact ih.trans (ending_advance hkind)

theorem ahead_synchronize (t : Tape σ) : t.synchronize.ahead = behindSemicolon t.ahead := by
  fun_induction synchronize t with
  | case1 t h =>
    rw [ahead_advance (t := t) (by rw [h]; decide)]
    exact (if_pos h).symm
  | case2 t _ h =>
    rw [ahead_of_kind_eof h]
    rfl
  | case3 t h heof ih =>
    rw [ih, ahead_advance heof]
    exact (if_neg h).symm

theorem ahead_skipHeader (t : Tape σ) : t.skipHeader.ahead = behindHeader t.ahead := by
  fun_induction skipHeader t with
  | case1 t h =>
    rw [ahead_of_kind_eof h]
    rfl
  | case2 t heof h =>
    rw [ahead_advance heof]
    exact (if_pos h).symm
  | case3 t heof h h' =>
    rw [ahead_advance heof]
    exact ((if_neg h).trans (if_pos h')).symm
  | case4 t heof h h' ih =>
    rw [ih, ahead_advance heof]
    exact ((if_neg h).trans (if_neg h')).symm

end Tape

/-! ### The state of a cursor -/

namespace Cursor

/-- The state with the tokens and diagnostics of a cursor, at changed places. -/
def toState (place : Position → Position) (c : Cursor σ) : State where
  rest := c.tape.ahead.map (Token.moved place)
  eof := c.tape.ending.moved place
  types := c.types
  diagnostics := c.diagnostics.map (Diagnostic.relocated place)
  kind_eof := kind_endOf c.tape.tokens

variable {place : Position → Position}

theorem rest_toState {c : Cursor σ} (h : c.current.kind ≠ .eof) :
    (c.toState place).rest = c.current.moved place :: (c.advance.toState place).rest :=
  congrArg (List.map (Token.moved place)) (Tape.ahead_advance h)

theorem rest_toState_of_eof {c : Cursor σ} (h : c.current.kind = .eof) :
    (c.toState place).rest = [] :=
  congrArg (List.map (Token.moved place)) (Tape.ahead_of_kind_eof h)

theorem current_toState (c : Cursor σ) : (c.toState place).current = c.current.moved place := by
  by_cases h : c.current.kind = .eof
  · rw [State.current, rest_toState_of_eof h]
    exact congrArg (Token.moved place) (endOf_cons_of_eof h _)
  · exact State.current_eq (rest_toState h)

/-- A cursor that has reached another differs from it, as a state, in what is left to read and in
what is known and reported. -/
theorem toState_eq {c d : Cursor σ} (h : c.tape.Reaches d.tape) :
    d.toState place = { c.toState place with
      rest := (d.toState place).rest, types := d.types,
      diagnostics := (d.toState place).diagnostics } := by
  simp only [toState, h.ending_eq]

theorem advance_toState {c : Cursor σ} (h : c.current.kind ≠ .eof) :
    (c.toState place).advance = c.advance.toState place := by
  rw [State.advance_eq (rest_toState h)]
  exact (toState_eq (.step h (.refl _))).symm

theorem synchronize_toState (c : Cursor σ) :
    (c.toState place).synchronize = c.synchronize.toState place := by
  have hrest : (c.synchronize.toState place).rest = behindSemicolon (c.toState place).rest := by
    show List.map _ c.tape.synchronize.ahead = _
    rw [Tape.ahead_synchronize]
    exact (behindSemicolon_map_moved place _).symm
  rw [State.synchronize, ← hrest]
  exact (toState_eq c.tape.reaches_synchronize).symm

theorem skipHeader_toState (c : Cursor σ) :
    (c.toState place).skipHeader = c.skipHeader.toState place := by
  have hrest : (c.skipHeader.toState place).rest = behindHeader (c.toState place).rest := by
    show List.map _ c.tape.skipHeader.ahead = _
    rw [Tape.ahead_skipHeader]
    exact (behindHeader_map_moved place _).symm
  rw [State.skipHeader, ← hrest]
  exact (toState_eq c.tape.reaches_skipHeader).symm

theorem report_toState (c : Cursor σ) (fault : Diagnostic) :
    (c.toState place).report (fault.relocated place) = (c.report fault).toState place := by
  simp only [State.report, report, toState, List.map_append, List.map_cons, List.map_nil]

end Cursor

/-! ### Rules that follow others -/

/-- What a rule makes of a cursor, as something that a rule makes of its state. -/
def Outcome.toResult {α β : Type} {c : Cursor σ} (place : Position → Position) (f : α → β) :
    Outcome α c → EStateM.Result Diagnostic State β
  | .ok value d _ => .ok (f value) (d.toState place)
  | .error fault d _ => .error (fault.relocated place) (d.toState place)

namespace Rule

variable {α α' β β' : Type} {place : Position → Position} {c : Cursor σ}

theorem toResult_since {d : Cursor σ} (h : c.tape.Reaches d.tape) (f : α → β)
    (outcome : Outcome α d) : (outcome.since h).toResult place f = outcome.toResult place f := by
  cases outcome <;> rfl

/-- On a cursor the first rule does what the second one does on its state, with places and values
changed. -/
def Follows (place : Position → Position) (f : α → β) (rule : Rule σ α) (rule' : Parser.Rule β)
    (c : Cursor σ) : Prop :=
  (rule c).toResult place f = rule'.run (c.toState place)

theorem follows_pure (f : α → β) (value : α) (c : Cursor σ) :
    Follows place f (pure value) (pure (f value)) c := rfl

theorem Follows.bind {f : α → β} {g : α' → β'} {rule : Rule σ α} {rule' : Parser.Rule β}
    {next : α → Rule σ α'} {next' : β → Parser.Rule β'} (h : Follows place f rule rule' c)
    (k : ∀ value d, c.tape.Reaches d.tape → Follows place g (next value) (next' (f value)) d) :
    Follows place g (rule >>= next) (rule' >>= next') c := by
  unfold Follows at h ⊢
  rw [Parser.Rule.run_bind, ← h]
  show ((rule c).andThen fun value d _ => next value d).toResult place g = _
  cases rule c with
  | ok value d hreaches => exact (toResult_since hreaches g _).trans (k value d hreaches)
  | error fault d hreaches => rfl

/-- A rule may first step over the current token. -/
theorem Follows.of_advance {f : α → β} {rule rule₁ : Rule σ α} {rule' rule₁' : Parser.Rule β}
    (hkind : c.current.kind ≠ .eof)
    (hrule : rule c = (rule₁ c.advance).since (.step hkind (.refl _)))
    (hrule' : rule'.run (c.toState place) = rule₁'.run (c.toState place).advance)
    (h : Follows place f rule₁ rule₁' c.advance) : Follows place f rule rule' c := by
  unfold Follows at h ⊢
  rw [hrule, toResult_since, h, hrule', Cursor.advance_toState hkind]

/-- A rule may take the current token alone. -/
theorem follows_of_take {f : α → β} {rule : Rule σ α} {rule' : Parser.Rule β} {value : α}
    {kind : TokenKind} (hkind : c.current.kind = kind) (hne : kind ≠ .eof)
    (hrule : rule c = .ok value c.advance (c.reaches_advance hkind hne))
    (hrule' : rule'.run (c.toState place) = .ok (f value) (c.toState place).advance) :
    Follows place f rule rule' c := by
  unfold Follows
  rw [hrule, hrule', Cursor.advance_toState (hkind ▸ hne)]
  rfl

/-- A rule may fail at once. -/
theorem follows_of_fail {f : α → β} {rule : Rule σ α} {rule' : Parser.Rule β} {fault : Diagnostic}
    (hrule : rule c = .error fault c (.refl _))
    (hrule' : rule'.run (c.toState place) = .error (fault.relocated place) (c.toState place)) :
    Follows place f rule rule' c := by
  unfold Follows
  rw [hrule, hrule']
  rfl

theorem follows_expect {kind : TokenKind} (hkind : kind ≠ .eof) (c : Cursor σ) :
    Follows place (Token.moved place) (expect kind hkind) (Parser.Rule.expect kind) c := by
  unfold Follows expect
  rw [Parser.Rule.run_expect, Cursor.current_toState, Token.kind_moved]
  by_cases h : c.current.kind = kind
  · rw [dif_pos h, if_pos h, Cursor.advance_toState (h ▸ hkind)]
    rfl
  rw [dif_neg h, if_neg h]
  by_cases hunknown : c.current.kind = .unknown
  · have hne : c.current.kind ≠ .eof := by
      rw [hunknown]
      decide
    rw [dif_pos hunknown, if_pos hunknown]
    have hadvance : ((c.report (.unclassified c.current)).toState place).advance =
        (c.report (.unclassified c.current)).advance.toState place := Cursor.advance_toState hne
    rw [← Cursor.report_toState] at hadvance
    exact congrArg (EStateM.Result.ok _) hadvance.symm
  · rw [dif_neg hunknown, if_neg hunknown]
    rfl

theorem follows_reference (token : Token) (c : Cursor σ) :
    Follows place (Identifier.moved place) (reference token)
      (Parser.Rule.reference (token.moved place)) c := rfl

theorem follows_identifier (c : Cursor σ) :
    Follows place (Identifier.moved place) identifier Parser.Rule.identifier c :=
  (follows_expect (by decide) c).bind fun token d _ => follows_reference token d

/-! ### Expressions -/

mutual

theorem follows_chain (level : Level) (c : Cursor σ) :
    Follows place (Expr.moved place) (OnDemand.chain level) (Parser.Rule.chain level) c := by
  have h : Follows place (Expr.moved place)
      (do OnDemand.chainFrom level (← OnDemand.operand level))
      (do Parser.Rule.chainFrom level (← Parser.Rule.operand level)) c :=
    (follows_operand level c).bind fun left d _h => follows_chainFrom level left d
  unfold Follows at h ⊢
  rw [Parser.Rule.run_chain, ← h, OnDemand.chain]
  rfl
termination_by 5 * c.tape.left + level.rank + 1
decreasing_by
  · omega
  · have := _h.left_le
    omega

theorem follows_chainFrom (level : Level) (left : Expr) (c : Cursor σ) :
    Follows place (Expr.moved place) (OnDemand.chainFrom level left)
      (Parser.Rule.chainFrom level (left.moved place)) c := by
  have hrun := Parser.Rule.run_chainFrom level (left.moved place) (c.toState place)
  rw [Cursor.current_toState, Token.kind_moved] at hrun
  have hrule := OnDemand.chainFrom.eq_1 level left c
  split at hrule
  · rename_i hop
    rw [hop] at hrun
    unfold Follows
    rw [hrun, hrule]
    rfl
  · rename_i op hop
    rw [hop] at hrun
    have hkind : c.current.kind ≠ .eof := kind_ne_eof_of_operator? hop
    have hlt : c.advance.tape.left < c.tape.left := Tape.left_advance_lt hkind
    have h : Follows place (Expr.moved place)
        (do
          let right ← OnDemand.operand level
          OnDemand.chainFrom level (.binary op left right c.current.position))
        (do
          let right ← Parser.Rule.operand level
          Parser.Rule.chainFrom level
            (.binary op (left.moved place) right (place c.current.position))) c.advance :=
      (follows_operand level c.advance).bind fun right d _h =>
        follows_chainFrom level (.binary op left right c.current.position) d
    exact .of_advance hkind hrule hrun h
termination_by 5 * c.tape.left
decreasing_by
  · have := level.rank_le
    omega
  · have := _h.left_le
    omega

theorem follows_operand (level : Level) (c : Cursor σ) :
    Follows place (Expr.moved place) (OnDemand.operand level) (Parser.Rule.operand level) c := by
  unfold Follows
  cases level with
  | loose =>
    rw [OnDemand.operand, Parser.Rule.run_operand_loose]
    exact follows_chain .tight c
  | tight =>
    rw [OnDemand.operand, Parser.Rule.run_operand_tight]
    exact follows_factor c
termination_by 5 * c.tape.left + level.rank
decreasing_by
  · simp only [Level.rank]
    omega
  · simp only [Level.rank]
    omega

theorem follows_factor (c : Cursor σ) :
    Follows place (Expr.moved place) OnDemand.factor Parser.Rule.factor c := by
  have hrun := Parser.Rule.run_factor (c.toState place)
  rw [Cursor.current_toState, Token.kind_moved] at hrun
  have hrule := OnDemand.factor.eq_1 c
  split at hrule
  · rename_i hkind
    rw [hkind] at hrun
    split at hrule
    · rename_i n hread
      have hread' : Text.Decimal.read? (c.current.moved place).lexeme = some n := hread
      simp only [hread'] at hrun
      exact follows_of_take hkind (by decide) hrule hrun
    · rename_i hread
      have hread' : Text.Decimal.read? (c.current.moved place).lexeme = none := hread
      simp only [hread'] at hrun
      exact follows_of_fail hrule hrun
  · rename_i hkind
    rw [hkind] at hrun
    exact follows_of_take hkind (by decide) hrule hrun
  · rename_i hkind
    rw [hkind] at hrun
    exact follows_of_take hkind (by decide) hrule hrun
  · rename_i hkind
    rw [hkind] at hrun
    exact follows_of_take hkind (by decide) hrule hrun
  · rename_i hkind
    rw [hkind] at hrun
    have hne : c.current.kind ≠ .eof := by rw [hkind]; decide
    have hlt : c.advance.tape.left < c.tape.left := Tape.left_advance_lt hne
    have h : Follows place (Expr.moved place)
        (do
          let inner ← OnDemand.chain .loose
          let _ ← expect .rightParen
          return inner)
        (do
          let inner ← Parser.Rule.expr
          let _ ← Parser.Rule.expect .rightParen
          return inner) c.advance := by
      refine (follows_chain .loose c.advance).bind fun inner d _ => ?_
      refine (follows_expect _ d).bind fun _ e _ => ?_
      exact follows_pure (Expr.moved place) inner e
    exact .of_advance hne hrule hrun h
  · rename_i hkind
    rw [hkind] at hrun
    have hne : c.current.kind ≠ .eof := by rw [hkind]; decide
    have hlt : c.advance.tape.left < c.tape.left := Tape.left_advance_lt hne
    have h : Follows place (Expr.moved place)
        (do return Expr.not (← OnDemand.factor) c.current.position)
        (do return Expr.not (← Parser.Rule.factor) (place c.current.position)) c.advance :=
      (follows_factor c.advance).bind fun operand d _ =>
        follows_pure (Expr.moved place) (.not operand c.current.position) d
    exact .of_advance hne hrule hrun h
  · split at hrun
    case h_7 => exact follows_of_fail hrule hrun
    all_goals contradiction
termination_by 5 * c.tape.left
decreasing_by
  · simp only [Level.rank]
    omega
  · omega

end

theorem follows_expr (c : Cursor σ) :
    Follows place (Expr.moved place) expr Parser.Rule.expr c :=
  follows_chain .loose c

/-! ### Statements without a body -/

theorem follows_typeName (c : Cursor σ) : Follows place id typeName Parser.Rule.typeName c := by
  have hrun := Parser.Rule.run_typeName (c.toState place)
  rw [Cursor.current_toState, Token.kind_moved] at hrun
  have hrule := typeName.eq_1 c
  split at hrule
  · rename_i hkind
    rw [hkind] at hrun
    exact follows_of_take hkind (by decide) hrule hrun
  · rename_i hkind
    rw [hkind] at hrun
    exact follows_of_take hkind (by decide) hrule hrun
  · rename_i hkind
    rw [hkind] at hrun
    exact follows_of_take hkind (by decide) hrule hrun
  · split at hrun
    case h_4 => exact follows_of_fail hrule hrun
    all_goals contradiction

theorem follows_initializer (c : Cursor σ) :
    Follows place (Option.map (Expr.moved place)) initializer Parser.Rule.initializer c := by
  have hrun := Parser.Rule.run_initializer (c.toState place)
  rw [Cursor.current_toState, Token.kind_moved] at hrun
  by_cases hkind : c.current.kind = .assign
  · have hne : c.current.kind ≠ .eof := by rw [hkind]; decide
    rw [if_pos hkind] at hrun
    have h : Follows place (Option.map (Expr.moved place)) (do return some (← expr))
        (do return some (← Parser.Rule.expr)) c.advance :=
      (follows_expr c.advance).bind fun e d _ =>
        follows_pure (Option.map (Expr.moved place)) (some e) d
    exact .of_advance hne (dif_pos hkind) hrun h
  · rw [if_neg hkind] at hrun
    unfold Follows initializer
    rw [dif_neg hkind, hrun]
    rfl

theorem follows_declaration (c : Cursor σ) :
    Follows place (Statement.moved place) declaration Parser.Rule.declaration c := by
  refine (follows_expect _ c).bind fun name d _ => ?_
  refine (follows_expect _ d).bind fun _ e _ => ?_
  refine (follows_typeName e).bind fun ty e' _ => ?_
  have hdeclare : Follows place id (declare name.lexeme ty)
      (Parser.Rule.declare name.lexeme ty) e' := rfl
  refine hdeclare.bind fun _ e₁ _ => ?_
  refine (follows_initializer e₁).bind fun value e₂ _ => ?_
  exact follows_pure (Statement.moved place) (.declaration name.lexeme name.position ty value) e₂

theorem follows_assignment (target : Token) (c : Cursor σ) :
    Follows place (Statement.moved place) (assignment target)
      (Parser.Rule.assignment (target.moved place)) c := by
  refine (follows_reference target c).bind fun identifier d _ => ?_
  refine (follows_expect _ d).bind fun _ e _ => ?_
  refine (follows_expr e).bind fun value e₁ _ => ?_
  exact follows_pure (Statement.moved place) (.assignment identifier value) e₁

theorem follows_print (keyword : Token) (c : Cursor σ) :
    Follows place (Statement.moved place) (print keyword)
      (Parser.Rule.print (keyword.moved place)) c :=
  (follows_expr c).bind fun value d _ =>
    follows_pure (Statement.moved place) (.print value keyword.position) d

theorem follows_read (c : Cursor σ) :
    Follows place (Statement.moved place) read Parser.Rule.read c :=
  (follows_identifier c).bind fun target d _ =>
    follows_pure (Statement.moved place) (.read target) d

theorem follows_assertion (keyword : Token) (c : Cursor σ) :
    Follows place (Statement.moved place) (assertion keyword)
      (Parser.Rule.assertion (keyword.moved place)) c := by
  refine (follows_expect _ c).bind fun _ d _ => ?_
  refine (follows_expr d).bind fun condition e _ => ?_
  refine (follows_expect _ e).bind fun _ e₁ _ => ?_
  exact follows_pure (Statement.moved place) (.assert condition keyword.position) e₁

/-! ### Loops and blocks -/

theorem follows_loopHeader (c : Cursor σ) :
    Follows place (LoopHeader.moved place) loopHeader Parser.Rule.loopHeader c := by
  refine (follows_identifier c).bind fun counter d _ => ?_
  refine (follows_expect _ d).bind fun _ d₁ _ => ?_
  refine (follows_expr d₁).bind fun start d₂ _ => ?_
  refine (follows_expect _ d₂).bind fun _ d₃ _ => ?_
  refine (follows_expr d₃).bind fun stop d₄ _ => ?_
  refine (follows_expect _ d₄).bind fun _ d₅ _ => ?_
  exact follows_pure (LoopHeader.moved place) ⟨counter, start, stop⟩ d₅

theorem follows_loopEnd (c : Cursor σ) : Follows place id loopEnd Parser.Rule.loopEnd c :=
  (follows_expect (by decide) c).bind fun _ d _ => (follows_expect (by decide) d).bind fun _ e _ =>
    follows_pure id () e

/-- What a block makes of a cursor, as what a block makes of a state. -/
def blockRun (place : Position → Position) (inLoop : Bool) (c : Cursor σ) : Block × State :=
  ((block inLoop c).statements.moved place, (block inLoop c).after.toState place)

theorem follows_loop (c : Cursor σ)
    (hbody : ∀ d : Cursor σ, c.tape.Reaches d.tape →
      blockRun place true d = Parser.blockRun true (d.toState place)) :
    Follows place (Statement.moved place) loop Parser.Rule.loop c := by
  unfold Follows
  have hheader : Follows place (LoopHeader.moved place) loopHeader Parser.Rule.loopHeader c :=
    follows_loopHeader c
  unfold Follows at hheader
  rw [Parser.Rule.run_loop, ← hheader, loop]
  cases loopHeader c with
  | error fault d h =>
    -- the fault waits while the body is read, and nothing of the body but its end is looked at
    have hskip := hbody d.skipHeader (h.trans d.tape.reaches_skipHeader)
    show EStateM.Result.error _ (blockRun place true d.skipHeader).2 = _
    rw [hskip, ← Cursor.skipHeader_toState]
    rfl
  | ok header d h =>
    have hend : Follows place id loopEnd Parser.Rule.loopEnd (block true d).after :=
      follows_loopEnd _
    unfold Follows at hend
    have hrun : (Outcome.ok header d h).toResult place (LoopHeader.moved place) =
        .ok (header.moved place) (d.toState place) := rfl
    rw [hrun]
    dsimp only
    rw [toResult_since, ← hbody d h]
    dsimp only [blockRun]
    rw [← hend]
    cases loopEnd (block true d).after <;> rfl

/-- The rule of a form of statements behind the first token, without the `;`. -/
def ofForm (first : Token) : StatementForm → Rule σ Statement
  | .declaration => declaration
  | .assignment => assignment first
  | .loop => loop
  | .print => print first
  | .read => read
  | .assertion => assertion first

theorem statement_eq (form : StatementForm) (first : Token) (c : Cursor σ) :
    statement form first c =
      (do
        let value ← ofForm first form
        let _ ← expect .semicolon
        return value : Rule σ Statement) c := by
  cases form <;> rw [statement] <;> rfl

theorem follows_statement (form : StatementForm) (first : Token) (c : Cursor σ)
    (hbody : ∀ d : Cursor σ, c.tape.Reaches d.tape →
      blockRun place true d = Parser.blockRun true (d.toState place)) :
    Follows place (Statement.moved place) (statement form first)
      (Parser.Rule.statement form (first.moved place)) c := by
  have hform : Follows place (Statement.moved place) (ofForm first form)
      (form.rule (first.moved place)) c := by
    cases form with
    | declaration => exact follows_declaration c
    | assignment => exact follows_assignment first c
    | loop => exact follows_loop c hbody
    | print => exact follows_print first c
    | read => exact follows_read c
    | assertion => exact follows_assertion first c
  have h : Follows place (Statement.moved place)
      (do
        let value ← ofForm first form
        let _ ← expect .semicolon
        return value)
      (do
        let value ← form.rule (first.moved place)
        let _ ← Parser.Rule.expect .semicolon
        return value) c :=
    hform.bind fun value d _ => (follows_expect _ d).bind fun _ e _ =>
      follows_pure (Statement.moved place) value e
  unfold Follows at h ⊢
  rw [statement_eq, h, Parser.Rule.run_statement]

end Rule

/-- A block goes on after each round that does not end it. -/
theorem blockRun_eq (inLoop : Bool) (c : Cursor σ) (place : Position → Position) :
    Rule.blockRun place inLoop c =
      match round inLoop c with
      | .leaves d _ => ([], d.toState place)
      | .goesOn statement? d _ =>
        ((statement?.map (Statement.moved place)).toList ++ (Rule.blockRun place inLoop d).1,
          (Rule.blockRun place inLoop d).2) := by
  unfold Rule.blockRun
  rw [block]
  cases round inLoop c with
  | leaves d _ => rfl
  | goesOn statement? d _ => cases statement? <;> rfl

theorem follows_block (inLoop : Bool) (c : Cursor σ) (place : Position → Position) :
    Rule.blockRun place inLoop c = Parser.blockRun inLoop (c.toState place) := by
  rw [blockRun_eq, round]
  by_cases heof : c.current.kind = .eof
  · rw [dif_pos heof, Parser.blockRun_of_nil (c.rest_toState_of_eof heof)]
  have hlt : c.advance.tape.left < c.tape.left := Tape.left_advance_lt heof
  have hrest : (c.toState place).rest = c.current.moved place :: (c.advance.toState place).rest :=
    Cursor.rest_toState heof
  have hadvance : (c.toState place).advance = c.advance.toState place := Cursor.advance_toState heof
  rw [dif_neg heof, Parser.blockRun_of_cons hrest, ← State.advance_eq hrest, hadvance,
    ← State.advance_eq (s := (c.toState place).report _) hrest, Token.kind_moved]
  by_cases hend : inLoop = true ∧ c.current.kind = .keyword .end
  · rw [if_pos hend, if_pos hend]
  rw [if_neg hend, if_neg hend]
  by_cases hunknown : c.current.kind = .unknown
  · rw [if_pos hunknown, if_pos hunknown]
    have hnext := follows_block inLoop (c.report (.unclassified c.current)).advance place
    rw [← Cursor.advance_toState (c := c.report _) heof, ← Cursor.report_toState] at hnext
    exact hnext
  rw [if_neg hunknown, if_neg hunknown]
  cases hform : StatementForm.ofKind? c.current.kind with
  | some form =>
    -- the body of a loop starts behind the current token, so that the block in it has fewer left
    have hstatement : Rule.Follows place (Statement.moved place) (statement form c.current)
        (Parser.Rule.statement form (c.current.moved place)) c.advance :=
      Rule.follows_statement form c.current c.advance fun d h =>
        have := h.left_le
        follows_block true d place
    unfold Rule.Follows at hstatement
    dsimp only
    rw [← hstatement]
    cases hrun : statement form c.current c.advance with
    | ok value d h =>
      have := h.left_le
      show (value.moved place :: (Rule.blockRun place inLoop d).1,
        (Rule.blockRun place inLoop d).2) = _
      rw [follows_block inLoop d place]
      rfl
    | error fault d h =>
      have hle : (d.report fault).synchronize.tape.left ≤ d.tape.left :=
        d.tape.reaches_synchronize.left_le
      have := h.left_le
      have hnext := follows_block inLoop (d.report fault).synchronize place
      rw [← Cursor.synchronize_toState, ← Cursor.report_toState] at hnext
      exact hnext
  | none =>
    have hstray : (c.report (.unexpected .statement c.current)).synchronize.tape.left <
        c.tape.left := (Tape.passes_synchronize heof).left_lt
    have hnext :=
      follows_block inLoop (c.report (.unexpected .statement c.current)).synchronize place
    rw [← Cursor.synchronize_toState, ← Cursor.report_toState] at hnext
    dsimp only
    cases hkind : c.current.kind with
    | keyword keyword =>
      exact congrArg (Prod.mk []) (c.report_toState (.unrecognizedStatement c.current)).symm
    | _ => exact hnext
termination_by c.tape.left

/-! ### Whole streams -/

theorem Tape.initial_cases (stream : σ) :
    (initial stream).tokens = TokenStream.drain stream ∨
      TokenStream.drain stream = [] ∧ (initial stream).current = .eof .start :=
  advance_cases ⟨.eof .start, stream⟩

theorem Tape.ahead_initial (stream : σ) :
    (initial stream).ahead =
      (TokenStream.drain stream).takeWhile fun token => token.kind != .eof := by
  rcases initial_cases stream with htokens | ⟨hdry, hcurrent⟩
  · rw [ahead, htokens]
  · rw [hdry]
    exact ahead_of_kind_eof (by rw [hcurrent]; rfl)

theorem Tape.ending_initial (stream : σ) :
    (initial stream).ending = endOf (TokenStream.drain stream) := by
  rcases initial_cases stream with htokens | ⟨hdry, hcurrent⟩
  · rw [ending, htokens]
  · rw [ending, tokens, hcurrent, hdry]
    exact endOf_cons_of_eof rfl _

/-- What is read on demand is what is read from the list of tokens, whatever becomes of the
places. -/
theorem follows_parse (stream : σ) (types : TypeTable) (place : Position → Position) :
    Block.moved place (parse stream types).program.statements =
        (Parser.blockRun false ((Cursor.initial types stream).toState place)).1 ∧
      (parse stream types).diagnostics.map (Diagnostic.relocated place) =
        (Parser.blockRun false ((Cursor.initial types stream).toState place)).2.diagnostics := by
  rw [← follows_block false (Cursor.initial types stream) place]
  exact ⟨rfl, rfl⟩

end Parser.OnDemand

namespace Parser

theorem toState_initial_id {σ : Type} [TokenStream σ] (stream : σ) (types : TypeTable) :
    (OnDemand.Cursor.initial types stream).toState id =
      State.initial types (TokenStream.drain stream) := by
  have hid : Token.moved id = id := rfl
  unfold OnDemand.Cursor.toState State.initial
  simp only [OnDemand.Cursor.initial, OnDemand.Tape.ahead_initial,
    OnDemand.Tape.ending_initial, hid, List.map_id, id, List.map_nil]

/-- Asking for each token when it is needed gives what reading all tokens first gives. -/
theorem OnDemand.parse_eq {σ : Type} [TokenStream σ] (stream : σ) (types : TypeTable) :
    OnDemand.parse stream types = MiniPL.parse stream types := by
  obtain ⟨hstatements, hdiagnostics⟩ := OnDemand.follows_parse stream types id
  rw [toState_initial_id] at hstatements hdiagnostics
  rw [Block.moved_id] at hstatements
  rw [funext Diagnostic.relocated_id, List.map_id'] at hdiagnostics
  have hresult := congr (congrArg (fun b d => ParseResult.mk ⟨b⟩ d) hstatements) hdiagnostics
  exact hresult

end Parser
end MiniPL
