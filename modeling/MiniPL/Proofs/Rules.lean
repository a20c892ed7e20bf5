import MiniPL.Parser.Program

/-!
# Rules as equations

The recursive rules of the grammar as plain equations on `Rule.run`, and the readings that report
nothing: `rule.Reads s value t` says that the rule takes the state `s` to a value and the state `t`
without a new diagnostic.  Because no rule withdraws a diagnostic, a sequence of rules reports
nothing exactly when each of them does (`Rule.reads_bind_iff`), so that a reading of a composed rule
falls apart into readings of its parts.

Main statements: `Rule.run_chain`, `Rule.run_chainFrom`, `Rule.run_factor`,
`Rule.run_statement`, `Rule.run_loop`, `blockRun_of_cons`, and the lemmas `Rule.reads_*_iff`.
-/

namespace MiniPL.Parser

/-! ### States -/

namespace State

@[simp] theorem rest_skipTo (s : State) (rest : List Token) : (s.skipTo rest).rest = rest := rfl

@[simp] theorem types_skipTo (s : State) (rest : List Token) :
    (s.skipTo rest).types = s.types := rfl

@[simp] theorem diagnostics_skipTo (s : State) (rest : List Token) :
    (s.skipTo rest).diagnostics = s.diagnostics := rfl

@[simp] theorem skipTo_skipTo (s : State) (rest rest' : List Token) :
    (s.skipTo rest).skipTo rest' = s.skipTo rest' := rfl

@[simp] theorem rest_report (s : State) (fault : Diagnostic) : (s.report fault).rest = s.rest := rfl

@[simp] theorem diagnostics_report (s : State) (fault : Diagnostic) :
    (s.report fault).diagnostics = s.diagnostics ++ [fault] := rfl

@[simp] theorem diagnostics_advance (s : State) : s.advance.diagnostics = s.diagnostics := rfl

theorem advance_eq {s : State} {token : Token} {rest : List Token} (h : s.rest = token :: rest) :
    s.advance = s.skipTo rest := by
  simp only [advance, skipTo, h, List.tail_cons]

theorem current_eq {s : State} {token : Token} {rest : List Token} (h : s.rest = token :: rest) :
    s.current = token := by
  simp only [current, h, List.headD_cons]

/-- The end of the input stands behind the last token. -/
theorem kind_current_of_nil {s : State} (h : s.rest = []) : s.current.kind = .eof := by
  simpa only [current, h, List.headD_nil] using s.kind_eof

/-- A current token that does not end the input is the first of the rest. -/
theorem rest_eq_of_kind {s : State} {kind : TokenKind} (h : s.current.kind = kind)
    (hkind : kind ≠ .eof) : ∃ rest, s.rest = s.current :: rest ∧ s.advance = s.skipTo rest := by
  cases hrest : s.rest with
  | nil => exact absurd (h.symm.trans (kind_current_of_nil hrest)) hkind
  | cons token rest => exact ⟨rest, by rw [current_eq hrest], advance_eq hrest⟩

end State

/-! ### Running a rule -/

namespace Rule

variable {α β : Type} {s t : State}

theorem reaches_of_run_ok {rule : Rule α} {value : α} (h : rule.run s = .ok value t) :
    s.Reaches t := by
  unfold run at h
  cases houtcome : rule s with
  | ok v u k =>
    rw [houtcome] at h
    cases h
    exact k
  | error f u k => rw [houtcome] at h; cases h

theorem reaches_of_run_error {rule : Rule α} {fault : Diagnostic}
    (h : rule.run s = .error fault t) : s.Reaches t := by
  unfold run at h
  cases houtcome : rule s with
  | ok v u k => rw [houtcome] at h; cases h
  | error f u k =>
    rw [houtcome] at h
    cases h
    exact k

@[simp] theorem run_current (s : State) : current.run s = .ok s.current s := rfl

@[simp] theorem run_declare (name : String) (ty : ValueType) (s : State) :
    (declare name ty).run s = .ok () (s.declare name ty) := rfl

@[simp] theorem run_reference (token : Token) (s : State) :
    (reference token).run s = .ok (s.reference token) s := rfl

theorem run_expect (kind : TokenKind) (s : State) :
    (expect kind).run s =
      if s.current.kind = kind then .ok s.current s.advance
      else if s.current.kind = .unknown then
        .ok ⟨kind, s.current.lexeme, s.current.position⟩
          (s.report (.unclassified s.current)).advance
      else .error (.unexpected (.token kind) s.current) s := by
  unfold expect
  rw [run_bind, run_current]
  dsimp only
  split
  · rfl
  · split <;> rfl

end Rule

/-! ### Expressions -/

namespace Rule

/-- Operands joined by the operators of a level. -/
def chain (level : Level) : Rule Expr := Parser.chain level

/-- The rest of a chain behind its left part. -/
def chainFrom (level : Level) (left : Expr) : Rule Expr := Parser.chainFrom level left

/-- What the operators of a level join. -/
def operand (level : Level) : Rule Expr := Parser.operand level

/-- What the operators that bind tightly join. -/
def factor : Rule Expr := Parser.factor

theorem expr_eq_chain : expr = chain .loose := rfl

theorem run_chain (level : Level) (s : State) :
    (chain level).run s = (do chainFrom level (← operand level)).run s := by
  unfold run chain
  rw [Parser.chain]
  rfl

theorem run_operand_loose (s : State) : (operand .loose).run s = (chain .tight).run s := by
  unfold run operand
  rw [Parser.operand]
  rfl

theorem run_operand_tight (s : State) : (operand .tight).run s = factor.run s := by
  unfold run operand
  rw [Parser.operand]
  rfl

/-- What follows the left part of a chain depends on the current token alone. -/
theorem run_chainFrom (level : Level) (left : Expr) (s : State) :
    (chainFrom level left).run s =
      match level.operator? s.current.kind with
      | none => .ok left s
      | some op =>
        (do chainFrom level (.binary op left (← operand level) s.current.position)).run
          s.advance := by
  unfold run chainFrom
  rw [Parser.chainFrom]
  split
  · rename_i h
    rw [State.kind_current_of_nil h]
    cases level <;> rfl
  · rename_i token rest h
    rw [State.current_eq h]
    cases level.operator? token.kind with
    | none => rfl
    | some op => exact Outcome.result_since _ _

/-- What a factor is depends on the current token alone. -/
theorem run_factor (s : State) :
    factor.run s =
      match s.current.kind with
      | .intLiteral =>
        match Text.Decimal.read? s.current.lexeme with
        | some n => .ok (.int n) s.advance
        | none => .error (.of (.literalOutOfRange s.current.lexeme) s.current.position) s
      | .stringLiteral => .ok (.string s.current.lexeme) s.advance
      | .boolLiteral => .ok (.bool (s.current.lexeme == "true")) s.advance
      | .identifier => .ok (.var (s.reference s.current)) s.advance
      | .leftParen =>
        (do
          let inner ← expr
          let _ ← expect .rightParen
          return inner).run s.advance
      | .not => (do return Expr.not (← factor) s.current.position).run s.advance
      | _ => .error (.unexpected .operand s.current) s := by
  unfold run factor
  rw [Parser.factor]
  split
  · rename_i h
    rw [State.kind_current_of_nil h]
    simp only [State.current, h, List.headD_nil, Outcome.result]
  · rename_i token rest h
    rw [State.current_eq h]
    cases token.kind with
    | intLiteral => cases Text.Decimal.read? token.lexeme <;> rfl
    | leftParen => exact Outcome.result_since _ _
    | not => exact Outcome.result_since _ _
    | _ => rfl

end Rule

/-- The induction of the rules of expressions, told by what each rule goes on with: a chain with an
operand and its own loop, the loop with a further operand behind an operator of its level, a factor
with what stands behind `(` or `!`. -/
theorem expr_induction (chains operands : Level → State → Prop)
    (loops : Level → Expr → State → Prop) (factors : State → Prop)
    (chain : ∀ level s, operands level s → (∀ left t, s.Reaches t → loops level left t) →
      chains level s)
    (loop : ∀ level left s,
      (∀ sign rest op, s.rest = sign :: rest → level.operator? sign.kind = some op →
        operands level s.advance ∧ ∀ right t, s.advance.Reaches t →
          loops level (.binary op left right sign.position) t) → loops level left s)
    (loose : ∀ s, chains .tight s → operands .loose s)
    (tight : ∀ s, factors s → operands .tight s)
    (factor : ∀ s,
      (∀ token rest, s.rest = token :: rest → token.kind = .leftParen → chains .loose s.advance) →
      (∀ token rest, s.rest = token :: rest → token.kind = .not → factors s.advance) →
        factors s) :
    (∀ level s, chains level s) ∧ (∀ level left s, loops level left s) ∧
      (∀ level s, operands level s) ∧ ∀ s, factors s := by
  have only : ∀ s token tail, s.rest = token :: tail →
      (token.kind = .leftParen → chains .loose s.advance) →
      (token.kind = .not → factors s.advance) → factors s := by
    intro s token tail hcons hparen hnot
    refine factor s (fun token' rest hrest => ?_) fun token' rest hrest => ?_
    · obtain ⟨rfl, rfl⟩ := List.cons.inj (hcons.symm.trans hrest)
      exact hparen
    · obtain ⟨rfl, rfl⟩ := List.cons.inj (hcons.symm.trans hrest)
      exact hnot
  have leaf : ∀ s token tail, s.rest = token :: tail → token.kind ≠ .leftParen →
      token.kind ≠ .not → factors s := fun s token tail hcons hparen hnot =>
    only s token tail hcons (fun h => absurd h hparen) fun h => absurd h hnot
  refine Parser.chain.mutual_induct chains loops operands factors chain ?_ ?_ ?_ loose tight
    ?_ ?_ ?_ ?_ ?_ ?_ ?_ ?_ ?_
  · intro level left s hnil
    refine loop level left s fun sign rest op hrest => ?_
    rw [hnil] at hrest
    cases hrest
  · intro level left s token tail hcons hnone
    refine loop level left s fun sign rest op hrest hop => ?_
    obtain ⟨rfl, rfl⟩ := List.cons.inj (hcons.symm.trans hrest)
    rw [hnone] at hop
    cases hop
  · intro level left s token tail hcons op hop hoperand hmore
    refine loop level left s fun sign rest op' hrest hop' => ?_
    obtain ⟨rfl, rfl⟩ := List.cons.inj (hcons.symm.trans hrest)
    obtain rfl := Option.some.inj (hop.symm.trans hop')
    exact ⟨hoperand, hmore⟩
  · intro s hnil
    refine factor s (fun token rest hrest => ?_) fun token rest hrest => ?_
    · rw [hnil] at hrest
      cases hrest
    · rw [hnil] at hrest
      cases hrest
  · intro s token tail hcons hkind n _
    exact leaf s token tail hcons (by rw [hkind]; decide) (by rw [hkind]; decide)
  · intro s token tail hcons hkind _
    exact leaf s token tail hcons (by rw [hkind]; decide) (by rw [hkind]; decide)
  · intro s token tail hcons hkind
    exact leaf s token tail hcons (by rw [hkind]; decide) (by rw [hkind]; decide)
  · intro s token tail hcons hkind
    exact leaf s token tail hcons (by rw [hkind]; decide) (by rw [hkind]; decide)
  · intro s token tail hcons hkind
    exact leaf s token tail hcons (by rw [hkind]; decide) (by rw [hkind]; decide)
  · intro s token tail hcons hkind hchain
    exact only s token tail hcons (fun _ => hchain) fun h => absurd (hkind.symm.trans h) (by decide)
  · intro s token tail hcons hkind hfactor
    exact only s token tail hcons (fun h => absurd (hkind.symm.trans h) (by decide))
      fun _ => hfactor
  · intro s token tail hcons _ _ _ _ hparen hnot
    exact leaf s token tail hcons hparen hnot

/-! ### Statements and blocks -/

/-- The kind of the token that starts a form of statement. -/
def StatementForm.kind : StatementForm → TokenKind
  | declaration => .keyword .var
  | assignment => .identifier
  | loop => .keyword .for
  | print => .keyword .print
  | read => .keyword .read
  | assertion => .keyword .assert

theorem StatementForm.ofKind?_kind (form : StatementForm) : ofKind? form.kind = some form := by
  cases form <;> rfl

theorem StatementForm.kind_of_ofKind? {kind : TokenKind} {form : StatementForm}
    (h : ofKind? kind = some form) : kind = form.kind := by
  unfold ofKind? at h
  split at h <;> cases h <;> rfl

/-- A statement behind its first token, through its `;`. -/
def Rule.statement (form : StatementForm) (first : Token) : Rule Statement :=
  Parser.statement form first

/-- A loop behind its `for`. -/
def Rule.loop : Rule Statement := Parser.loop

/-- The rule of a form of statements behind the first token, without the `;`. -/
def StatementForm.rule (first : Token) : StatementForm → Rule Statement
  | declaration => Rule.declaration
  | assignment => Rule.assignment first
  | loop => Rule.loop
  | print => Rule.print first
  | read => Rule.read
  | assertion => Rule.assertion first

theorem Rule.run_statement (form : StatementForm) (first : Token) (s : State) :
    (statement form first).run s =
      (do
        let value ← form.rule first
        let _ ← expect .semicolon
        return value).run s := by
  unfold run statement Parser.statement
  cases form <;> rfl

/-- What a block makes of a state: its statements and the state behind them. -/
def blockRun (inLoop : Bool) (s : State) : Block × State :=
  ((block inLoop s).statements, (block inLoop s).after)

theorem reaches_blockRun (inLoop : Bool) (s : State) : s.Reaches (blockRun inLoop s).2 :=
  (block inLoop s).reaches

/-- A loop with a faulty header still reads its body, and fails with the fault of the header. -/
theorem Rule.run_loop (s : State) :
    Rule.loop.run s =
      match loopHeader.run s with
      | .ok header t =>
        match loopEnd.run (blockRun true t).2 with
        | .ok _ u => .ok (.loop header.counter header.start header.stop (blockRun true t).1) u
        | .error fault u => .error fault u
      | .error fault t => .error fault (blockRun true t.skipHeader).2 := by
  unfold run loop
  rw [Parser.loop]
  cases loopHeader s with
  | ok header t h =>
    rw [Outcome.result_since]
    dsimp only [Outcome.result, blockRun]
    cases loopEnd (block true t).after <;> rfl
  | error fault t h => rfl

section
variable {inLoop : Bool} {s : State} {token : Token} {rest : List Token}

theorem blockRun_of_nil (h : s.rest = []) : blockRun inLoop s = ([], s) := by
  unfold blockRun
  rw [block]
  split
  · rfl
  · rename_i h'
    rw [h] at h'
    cases h'

/-- What a block does in front of a token depends on the kind of that token. -/
theorem blockRun_of_cons (h : s.rest = token :: rest) :
    blockRun inLoop s =
      if inLoop ∧ token.kind = .keyword .end then ([], s)
      else if token.kind = .unknown then
        blockRun inLoop ((s.report (.unclassified token)).skipTo rest)
      else
        match StatementForm.ofKind? token.kind with
        | some form =>
          match (Rule.statement form token).run (s.skipTo rest) with
          | .ok value t => (value :: (blockRun inLoop t).1, (blockRun inLoop t).2)
          | .error fault t => blockRun inLoop (t.report fault).synchronize
        | none =>
          match token.kind with
          | .keyword _ => ([], s.report (.unrecognizedStatement token))
          | _ => blockRun inLoop (s.report (.unexpected .statement token)).synchronize := by
  unfold blockRun Rule.run Rule.statement
  rw [← State.advance_eq h, ← State.advance_eq (s := s.report _) h, block]
  split
  · rename_i h'
    rw [h] at h'
    cases h'
  · rename_i h'
    obtain ⟨rfl, rfl⟩ := List.cons.inj (h.symm.trans h')
    split
    · rfl
    · split
      · rfl
      · cases StatementForm.ofKind? token.kind with
        | some form =>
          dsimp only
          cases statement form token s.advance <;> rfl
        | none => cases token.kind <;> rfl

/-- The body of a loop ends in front of `end`. -/
theorem blockRun_of_end (h : s.rest = token :: rest) (hkind : token.kind = .keyword .end) :
    blockRun true s = ([], s) := by
  rw [blockRun_of_cons h, if_pos ⟨rfl, hkind⟩]

/-- A statement is read and put in front, or it is reported and left out. -/
theorem blockRun_of_form {form : StatementForm} (h : s.rest = token :: rest)
    (hform : token.kind = form.kind) :
    blockRun inLoop s =
      match (Rule.statement form token).run (s.skipTo rest) with
      | .ok value t => (value :: (blockRun inLoop t).1, (blockRun inLoop t).2)
      | .error fault t => blockRun inLoop (t.report fault).synchronize := by
  have hend : ¬ (inLoop = true ∧ token.kind = .keyword .end) := by
    rintro ⟨-, hkind⟩
    rw [hkind] at hform
    cases form <;> cases hform
  have hunknown : ¬ token.kind = .unknown := by
    intro hkind
    rw [hkind] at hform
    cases form <;> cases hform
  rw [blockRun_of_cons h, if_neg hend, if_neg hunknown, hform, StatementForm.ofKind?_kind]

end

/-! ### Readings without a report -/

namespace Rule

variable {α β : Type} {s t : State}

/-- The rule takes a state to a value and another state, and reports nothing. -/
def Reads (rule : Rule α) (s : State) (value : α) (t : State) : Prop :=
  rule.run s = .ok value t ∧ t.diagnostics = s.diagnostics

theorem reads_pure_iff {value value' : α} :
    (pure value : Rule α).Reads s value' t ↔ value' = value ∧ t = s := by
  constructor
  · rintro ⟨h, -⟩
    cases h
    exact ⟨rfl, rfl⟩
  · rintro ⟨rfl, rfl⟩
    exact ⟨rfl, rfl⟩

/-- Rules in sequence report nothing exactly when each of them reports nothing. -/
theorem reads_bind_iff {rule : Rule α} {next : α → Rule β} {value : β} :
    (rule >>= next).Reads s value t ↔
      ∃ a u, rule.Reads s a u ∧ (next a).Reads u value t := by
  constructor
  · rintro ⟨hrun, hdiag⟩
    rw [run_bind] at hrun
    cases hrule : rule.run s with
    | error fault u => rw [hrule] at hrun; cases hrun
    | ok a u =>
      rw [hrule] at hrun
      have hsu := (reaches_of_run_ok hrule).diagnostics
      have hut := (reaches_of_run_ok hrun).diagnostics
      have hus : u.diagnostics = s.diagnostics := by
        rw [hdiag] at hut
        exact hut.eq_of_length_le hsu.length_le
      exact ⟨a, u, ⟨hrule, hus⟩, hrun, hdiag.trans hus.symm⟩
  · rintro ⟨a, u, ⟨hrule, hus⟩, hrun, htu⟩
    refine ⟨?_, htu.trans hus⟩
    rw [run_bind, hrule]
    exact hrun

theorem reads_declare_iff {name : String} {ty : ValueType} {value : Unit} :
    (declare name ty).Reads s value t ↔ t = s.declare name ty := by
  constructor
  · rintro ⟨h, -⟩
    cases h
    rfl
  · rintro rfl
    exact ⟨rfl, rfl⟩

theorem reads_reference_iff {token : Token} {identifier : Identifier} :
    (reference token).Reads s identifier t ↔ identifier = s.reference token ∧ t = s := by
  constructor
  · rintro ⟨h, -⟩
    cases h
    exact ⟨rfl, rfl⟩
  · rintro ⟨rfl, rfl⟩
    exact ⟨rfl, rfl⟩

/-- Without a report, a token of a kind is taken only from a token of that kind. -/
theorem reads_expect_iff {kind : TokenKind} (hkind : kind ≠ .eof) {token : Token} :
    (expect kind).Reads s token t ↔
      ∃ rest, s.rest = token :: rest ∧ token.kind = kind ∧ t = s.skipTo rest := by
  constructor
  · rintro ⟨hrun, hdiag⟩
    rw [run_expect] at hrun
    split at hrun
    · rename_i h
      cases hrun
      obtain ⟨rest, hrest, hadvance⟩ := State.rest_eq_of_kind h hkind
      exact ⟨rest, hrest, h, hadvance⟩
    · split at hrun
      · cases hrun
        simp at hdiag
      · cases hrun
  · rintro ⟨rest, hrest, rfl, rfl⟩
    refine ⟨?_, rfl⟩
    rw [run_expect, State.current_eq hrest, if_pos rfl, State.advance_eq hrest]

end Rule

end MiniPL.Parser
