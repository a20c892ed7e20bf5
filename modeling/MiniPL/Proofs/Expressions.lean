import MiniPL.Proofs.Grammar
import MiniPL.Proofs.Rules

/-!
# Reading expressions

The rules of expressions against the grammar, in both directions.

* A derived expression is read: `reads_expr_of_derives` needs only that no operator follows.  The
  induction is on the derivation; since a chain groups to the left, the claim about a chain is that
  its rule has come to the loop of that chain with the whole tree as its left part.
* What is read without a report is derived: `derives_of_reads_expr`.  The induction is the one of
  the rules; the loop of a chain carries the derivation of its left part.
-/

namespace MiniPL.Parser

open Grammar

/-! ### Operators -/

theorem Level.operator?_loose_sign {op : BinaryOp} (h : op.additive = true) :
    loose.operator? op.sign = some op := by
  cases op <;> first | rfl | cases h

theorem Level.operator?_tight_sign {op : BinaryOp} (h : op.additive = false) :
    tight.operator? op.sign = some op := by
  cases op <;> first | rfl | cases h

theorem Level.operator?_tight_of_additive {op : BinaryOp} (h : op.additive = true) :
    tight.operator? op.sign = none := by
  cases op <;> first | rfl | cases h

theorem Level.sign_of_operator? {level : Level} {kind : TokenKind} {op : BinaryOp}
    (h : level.operator? kind = some op) :
    kind = op.sign ∧ op.additive = (level == .loose) := by
  unfold operator? at h
  split at h <;> cases h <;> exact ⟨rfl, rfl⟩

/-! ### Derived expressions are read -/

section
variable {level : Level} {s t : State} {left right : Expr}

theorem run_chain_of_operand (h : (Rule.operand level).run s = .ok left t) :
    (Rule.chain level).run s = (Rule.chainFrom level left).run t := by
  rw [Rule.run_chain, Rule.run_bind, h]

theorem run_chainFrom_of_none (h : level.operator? s.current.kind = none) :
    (Rule.chainFrom level left).run s = .ok left s := by
  rw [Rule.run_chainFrom, h]

theorem run_chainFrom_of_some {op : BinaryOp} {sign : Token} {rest : List Token}
    (hrest : s.rest = sign :: rest) (hop : level.operator? sign.kind = some op)
    (h : (Rule.operand level).run (s.skipTo rest) = .ok right t) :
    (Rule.chainFrom level left).run s =
      (Rule.chainFrom level (.binary op left right sign.position)).run t := by
  rw [Rule.run_chainFrom, State.current_eq hrest, hop, State.advance_eq hrest]
  dsimp only
  rw [Rule.run_bind, h]

end

/-- How the rule of a phrase reads tokens with the tree `e`, whatever follows; an expression must
not be followed by an operator that binds tightly. -/
def ReadsAs (s : State) (tokens : List Token) (e : Expr) : Phrase → Prop
  | .expr => ∀ rest, s.rest = tokens ++ rest →
    Level.tight.operator? (s.skipTo rest).current.kind = none →
    (Rule.chain .loose).run s = (Rule.chainFrom .loose e).run (s.skipTo rest)
  | .term => ∀ rest, s.rest = tokens ++ rest →
    (Rule.chain .tight).run s = (Rule.chainFrom .tight e).run (s.skipTo rest)
  | .factor => ∀ rest, s.rest = tokens ++ rest → Rule.factor.run s = .ok e (s.skipTo rest)

section
variable {s : State} {tokens rest : List Token} {e : Expr}

theorem ReadsAs.run_operand_loose (h : ReadsAs s tokens e .term) (hrest : s.rest = tokens ++ rest)
    (hnext : Level.tight.operator? (s.skipTo rest).current.kind = none) :
    (Rule.operand .loose).run s = .ok e (s.skipTo rest) := by
  rw [Rule.run_operand_loose, h rest hrest, run_chainFrom_of_none hnext]

theorem ReadsAs.run_expr (h : ReadsAs s tokens e .expr) (hrest : s.rest = tokens ++ rest)
    (hnext : ∀ level : Level, level.operator? (s.skipTo rest).current.kind = none) :
    Rule.expr.run s = .ok e (s.skipTo rest) := by
  rw [Rule.expr_eq_chain, h rest hrest (hnext .tight), run_chainFrom_of_none (hnext .loose)]

end

/-- The tree of an integer literal in range is the number that its lexeme writes. -/
theorem read?_of_number? {token : Token} {n : Nat} (hnumber : token.number? = some n)
    (hle : n ≤ 2147483647) : Text.Decimal.read? token.lexeme = some (Int32.ofNat n) := by
  rw [Text.Decimal.read?, Text.Decimal.readChars?_of_natural? hnumber,
    Text.Decimal.word?_natCast, if_pos hle]

/-- Derived expressions are read as their trees. -/
theorem readsAs_of_derives {types : TypeTable} {phrase : Phrase} {tokens : List Token} {e : Expr}
    (h : Derives types phrase tokens e) :
    ∀ s : State, s.types = types → ReadsAs s tokens e phrase := by
  induction h with
  | term _ ih =>
    intro s hs rest hrest hnext
    exact run_chain_of_operand ((ih s hs).run_operand_loose hrest hnext)
  | @sum op sign left right l r hop hsign _ _ ihleft ihright =>
    intro s hs rest hrest hnext
    rw [List.append_assoc] at hrest
    have hsign' : (s.skipTo (sign :: right ++ rest)).current = sign := State.current_eq rfl
    rw [ihleft s hs _ hrest (by rw [hsign', hsign, Level.operator?_tight_of_additive hop])]
    refine run_chainFrom_of_some (s := s.skipTo _) rfl ?_
      ((ihright (s.skipTo (right ++ rest)) hs).run_operand_loose rfl hnext)
    rw [hsign, Level.operator?_loose_sign hop]
  | factor _ ih =>
    intro s hs rest hrest
    exact run_chain_of_operand ((Rule.run_operand_tight s).trans (ih s hs rest hrest))
  | @product op sign left right l r hop hsign _ _ ihleft ihright =>
    intro s hs rest hrest
    rw [List.append_assoc] at hrest
    rw [ihleft s hs _ hrest]
    refine run_chainFrom_of_some (s := s.skipTo _) rfl ?_
      ((Rule.run_operand_tight _).trans (ihright (s.skipTo (right ++ rest)) hs rest rfl))
    rw [hsign, Level.operator?_tight_sign hop]
  | int hkind hnumber hle =>
    intro s hs rest hrest
    rw [Rule.run_factor, State.current_eq hrest, hkind]
    dsimp only
    rw [read?_of_number? hnumber hle, State.advance_eq hrest]
    rfl
  | string hkind | bool hkind =>
    intro s hs rest hrest
    rw [Rule.run_factor, State.current_eq hrest, hkind, State.advance_eq hrest]
    rfl
  | var hkind =>
    intro s hs rest hrest
    rw [Rule.run_factor, State.current_eq hrest, hkind, State.advance_eq hrest, ← hs]
    rfl
  | @parens opening closing tokens e hopening _ hclosing ih =>
    intro s hs rest hrest
    rw [List.append_assoc, List.cons_append] at hrest
    have hnext : ∀ level : Level,
        level.operator? (s.skipTo (closing :: rest)).current.kind = none := by
      intro level
      rw [State.current_eq rfl, hclosing]
      cases level <;> rfl
    have hinner := (ih (s.skipTo (tokens ++ ([closing] ++ rest))) hs).run_expr rfl hnext
    rw [Rule.run_factor, State.current_eq hrest, hopening, State.advance_eq hrest]
    dsimp only
    rw [Rule.run_bind, hinner]
    dsimp only
    rw [Rule.run_bind, Rule.run_expect, State.current_eq rfl, if_pos hclosing]
    rfl
  | @not sign tokens e hsign _ ih =>
    intro s hs rest hrest
    rw [List.cons_append] at hrest
    rw [Rule.run_factor, State.current_eq hrest, hsign, State.advance_eq hrest]
    dsimp only
    rw [Rule.run_bind, ih (s.skipTo (tokens ++ rest)) hs rest rfl]
    rfl

/-- The kinds of tokens that follow an expression in the grammar; none is an operator's sign. -/
def followers : List TokenKind := [.semicolon, .rightParen, .range, .keyword .do]

theorem operator?_of_mem_followers {kind : TokenKind} (h : kind ∈ followers) (level : Level) :
    level.operator? kind = none := by
  simp only [followers, List.mem_cons, List.not_mem_nil, or_false] at h
  rcases h with rfl | rfl | rfl | rfl <;> cases level <;> rfl

/-- A derived expression is read as its tree, if a token follows that may follow an expression. -/
theorem reads_expr_of_derives {types : TypeTable} {tokens rest : List Token} {e : Expr}
    {next : Token} {s : State} (h : Derives types .expr tokens e) (hs : s.types = types)
    (hrest : s.rest = tokens ++ next :: rest) (hnext : next.kind ∈ followers) :
    Rule.expr.Reads s e (s.skipTo (next :: rest)) := by
  refine ⟨(readsAs_of_derives h s hs).run_expr hrest fun level => ?_, rfl⟩
  rw [State.current_eq rfl]
  exact operator?_of_mem_followers hnext level

/-! ### What is read without a report is derived -/

namespace State

/-- `s.Behind tokens t`: the state `t` stands behind the tokens, and knows the same types. -/
def Behind (s : State) (tokens : List Token) (t : State) : Prop :=
  s.rest = tokens ++ t.rest ∧ t.types = s.types

theorem Behind.refl (s : State) : s.Behind [] s := ⟨rfl, rfl⟩

theorem Behind.trans {s t u : State} {tokens tokens' : List Token} (h : s.Behind tokens t)
    (k : t.Behind tokens' u) : s.Behind (tokens ++ tokens') u := by
  refine ⟨?_, k.2.trans h.2⟩
  rw [h.1, k.1, List.append_assoc]

theorem behind_skipTo {s : State} {token : Token} {rest : List Token}
    (h : s.rest = token :: rest) : s.Behind [token] (s.skipTo rest) :=
  ⟨h, rfl⟩

theorem behind_advance {s : State} {token : Token} {rest : List Token}
    (h : s.rest = token :: rest) : s.Behind [token] s.advance := by
  rw [advance_eq h]
  exact behind_skipTo h

/-- The integer literals still to read are runs of digits. -/
def Numerals (s : State) : Prop :=
  ∀ token ∈ s.rest, token.kind = .intLiteral → token.number?.isSome = true

theorem Numerals.of_suffix {s t : State} (hs : s.Numerals) (h : t.rest <:+ s.rest) :
    t.Numerals :=
  fun token htoken => hs token (h.mem htoken)

theorem Numerals.of_behind {s t : State} {tokens : List Token} (hs : s.Numerals)
    (h : s.Behind tokens t) : t.Numerals :=
  hs.of_suffix ⟨tokens, h.1.symm⟩

end State

namespace Rule

variable {α : Type} {s t : State} {e : Expr}

theorem reads_congr {rule rule' : Rule α} {value : α} (h : rule.run s = rule'.run s) :
    rule.Reads s value t ↔ rule'.Reads s value t := by
  unfold Reads
  rw [h]

theorem reads_chain_iff {level : Level} :
    (chain level).Reads s e t ↔
      ∃ left u, (operand level).Reads s left u ∧ (chainFrom level left).Reads u e t := by
  rw [reads_congr (run_chain level s), reads_bind_iff]

theorem reads_chainFrom_of_none {level : Level} {left : Expr}
    (h : level.operator? s.current.kind = none) (hreads : (chainFrom level left).Reads s e t) :
    e = left ∧ t = s := by
  obtain ⟨hrun, -⟩ := hreads
  rw [run_chainFrom, h] at hrun
  cases hrun
  exact ⟨rfl, rfl⟩

theorem reads_chainFrom_of_some {level : Level} {left : Expr} {op : BinaryOp}
    (h : level.operator? s.current.kind = some op) (hreads : (chainFrom level left).Reads s e t) :
    ∃ right u, (operand level).Reads s.advance right u ∧
      (chainFrom level (.binary op left right s.current.position)).Reads u e t := by
  obtain ⟨hrun, hdiag⟩ := hreads
  rw [run_chainFrom, h] at hrun
  exact reads_bind_iff.1 ⟨hrun, hdiag⟩

end Rule

/-- The phrase of a chain of a level. -/
def Level.phrase : Level → Phrase
  | loose => .expr
  | tight => .term

/-- The phrase of an operand of a level. -/
def Level.operandPhrase : Level → Phrase
  | loose => .term
  | tight => .factor

theorem derives_chain_of_operand {types : TypeTable} {level : Level} {tokens : List Token}
    {e : Expr} (h : Derives types level.operandPhrase tokens e) :
    Derives types level.phrase tokens e := by
  cases level with
  | loose => exact .term h
  | tight => exact .factor h

theorem derives_chain_of_operator? {types : TypeTable} {level : Level} {left right : List Token}
    {sign : Token} {op : BinaryOp} {l r : Expr} (hop : level.operator? sign.kind = some op)
    (hl : Derives types level.phrase left l) (hr : Derives types level.operandPhrase right r) :
    Derives types level.phrase (left ++ sign :: right) (.binary op l r sign.position) := by
  obtain ⟨hsign, hadditive⟩ := Level.sign_of_operator? hop
  cases level with
  | loose => exact .sum hadditive hsign hl hr
  | tight => exact .product hadditive hsign hl hr

/-- What the rule reads from `s` without a report is the phrase. -/
def ReadsOnly (s : State) (phrase : Phrase) (rule : Rule Expr) : Prop :=
  s.Numerals → ∀ e t, rule.Reads s e t →
    ∃ tokens, s.Behind tokens t ∧ Derives s.types phrase tokens e

/-- What the loop of a chain reads from `s` without a report prolongs a chain in front of `s`. -/
def Prolongs (level : Level) (left : Expr) (s : State) : Prop :=
  s.Numerals → ∀ before, Derives s.types level.phrase before left →
    ∀ e t, (Rule.chainFrom level left).Reads s e t →
      ∃ tokens, s.Behind tokens t ∧ Derives s.types level.phrase (before ++ tokens) e

theorem prolongs_of_none {level : Level} {left : Expr} {s : State}
    (h : level.operator? s.current.kind = none) : Prolongs level left s := by
  intro _ before hbefore e t hreads
  obtain ⟨rfl, rfl⟩ := Rule.reads_chainFrom_of_none h hreads
  refine ⟨[], .refl t, ?_⟩
  rw [List.append_nil]
  exact hbefore

theorem prolongs_of_some {level : Level} {left : Expr} {s : State} {sign : Token}
    {rest : List Token} {op : BinaryOp} (hrest : s.rest = sign :: rest)
    (hop : level.operator? sign.kind = some op)
    (hoperand : ReadsOnly s.advance level.operandPhrase (Rule.operand level))
    (hmore : ∀ right t, s.advance.Reaches t →
      Prolongs level (.binary op left right sign.position) t) :
    Prolongs level left s := by
  intro hs before hbefore e t hreads
  rw [← State.current_eq hrest] at hop
  obtain ⟨right, u, hright, hchain⟩ := Rule.reads_chainFrom_of_some hop hreads
  rw [State.current_eq hrest] at hop hchain
  have hadvance := State.behind_advance hrest
  obtain ⟨tokens, hu, hderives⟩ := hoperand (hs.of_behind hadvance) right u hright
  have hsu := hadvance.trans hu
  have hlonger := derives_chain_of_operator? hop hbefore hderives
  rw [← hsu.2] at hlonger
  obtain ⟨more, ht, hall⟩ := hmore right u (Rule.reaches_of_run_ok hright.1)
    (hs.of_behind hsu) _ hlonger e t hchain
  refine ⟨[sign] ++ tokens ++ more, hsu.trans ht, ?_⟩
  rw [hsu.2] at hall
  simpa only [List.append_assoc, List.cons_append, List.nil_append] using hall

/-- A literal that is read is in range. -/
theorem derives_int_of_read? {types : TypeTable} {token : Token} {n : Int32}
    (hkind : token.kind = .intLiteral) (hnumeral : token.number?.isSome = true)
    (hread : Text.Decimal.read? token.lexeme = some n) :
    Derives types .factor [token] (.int n) := by
  obtain ⟨m, hm⟩ := Option.isSome_iff_exists.1 hnumeral
  rw [Text.Decimal.read?, Text.Decimal.readChars?_of_natural? hm,
    Text.Decimal.word?_natCast] at hread
  split at hread
  · rename_i hle
    obtain rfl := Option.some.inj hread
    exact .int hkind hm hle
  · cases hread

theorem readsOnly_factor {s : State}
    (hparen : ∀ token rest, s.rest = token :: rest → token.kind = .leftParen →
      ReadsOnly s.advance .expr Rule.expr)
    (hnot : ∀ token rest, s.rest = token :: rest → token.kind = .not →
      ReadsOnly s.advance .factor Rule.factor) :
    ReadsOnly s .factor Rule.factor := by
  rintro hs e t ⟨hrun, hdiag⟩
  rw [Rule.run_factor] at hrun
  split at hrun
  · rename_i hkind
    obtain ⟨rest, hrest, -⟩ := State.rest_eq_of_kind hkind (by decide)
    split at hrun
    · rename_i n hread
      cases hrun
      refine ⟨_, State.behind_advance hrest, derives_int_of_read? hkind ?_ hread⟩
      exact hs s.current (hrest ▸ List.mem_cons_self) hkind
    · cases hrun
  · rename_i hkind
    obtain ⟨rest, hrest, -⟩ := State.rest_eq_of_kind hkind (by decide)
    cases hrun
    exact ⟨_, State.behind_advance hrest, .string hkind⟩
  · rename_i hkind
    obtain ⟨rest, hrest, -⟩ := State.rest_eq_of_kind hkind (by decide)
    cases hrun
    exact ⟨_, State.behind_advance hrest, .bool hkind⟩
  · rename_i hkind
    obtain ⟨rest, hrest, -⟩ := State.rest_eq_of_kind hkind (by decide)
    cases hrun
    exact ⟨_, State.behind_advance hrest, .var hkind⟩
  · rename_i hkind
    obtain ⟨rest, hrest, -⟩ := State.rest_eq_of_kind hkind (by decide)
    have hadvance := State.behind_advance hrest
    obtain ⟨inner, u, hinner, hclose⟩ := Rule.reads_bind_iff.1 ⟨hrun, hdiag⟩
    obtain ⟨closing, v, hexpect, hpure⟩ := Rule.reads_bind_iff.1 hclose
    obtain ⟨rfl, rfl⟩ := Rule.reads_pure_iff.1 hpure
    obtain ⟨rest', hrest', hclosing, rfl⟩ := (Rule.reads_expect_iff (by decide)).1 hexpect
    obtain ⟨tokens, hu, hderives⟩ :=
      hparen _ _ hrest hkind (hs.of_behind hadvance) _ u hinner
    refine ⟨_, (hadvance.trans hu).trans (State.behind_skipTo hrest'), ?_⟩
    exact .parens hkind hderives hclosing
  · rename_i hkind
    obtain ⟨rest, hrest, -⟩ := State.rest_eq_of_kind hkind (by decide)
    have hadvance := State.behind_advance hrest
    obtain ⟨operand, u, hoperand, hpure⟩ := Rule.reads_bind_iff.1 ⟨hrun, hdiag⟩
    obtain ⟨rfl, rfl⟩ := Rule.reads_pure_iff.1 hpure
    obtain ⟨tokens, hu, hderives⟩ :=
      hnot _ _ hrest hkind (hs.of_behind hadvance) _ t hoperand
    exact ⟨_, hadvance.trans hu, .not hkind hderives⟩
  · cases hrun

/-- The rules of expressions read only the phrases of the grammar. -/
theorem readsOnly_chain (level : Level) (s : State) :
    ReadsOnly s level.phrase (Rule.chain level) := by
  refine (expr_induction (fun level s => ReadsOnly s level.phrase (Rule.chain level))
    (fun level s => ReadsOnly s level.operandPhrase (Rule.operand level)) Prolongs
    (fun s => ReadsOnly s .factor Rule.factor) ?chain ?loop ?loose ?tight ?factor).1 level s
  case chain =>
    intro level s hoperand hloop hs e t hreads
    obtain ⟨left, u, hleft, hchain⟩ := Rule.reads_chain_iff.1 hreads
    obtain ⟨tokens, hu, hderives⟩ := hoperand hs left u hleft
    have hbefore := derives_chain_of_operand hderives
    rw [← hu.2] at hbefore
    obtain ⟨more, ht, hall⟩ := hloop left u (Rule.reaches_of_run_ok hleft.1)
      (hs.of_behind hu) _ hbefore e t hchain
    rw [hu.2] at hall
    exact ⟨_, hu.trans ht, hall⟩
  case loop =>
    intro level left s hmore
    cases hop : level.operator? s.current.kind with
    | none => exact prolongs_of_none hop
    | some op =>
      cases hrest : s.rest with
      | nil =>
        rw [State.kind_current_of_nil hrest] at hop
        cases level <;> cases hop
      | cons sign rest =>
        rw [State.current_eq hrest] at hop
        obtain ⟨hoperand, hloop⟩ := hmore sign rest op hrest hop
        exact prolongs_of_some hrest hop hoperand hloop
  case loose =>
    intro s hchain hs e t hreads
    exact hchain hs e t ((Rule.reads_congr (Rule.run_operand_loose s)).1 hreads)
  case tight =>
    intro s hfactor hs e t hreads
    exact hfactor hs e t ((Rule.reads_congr (Rule.run_operand_tight s)).1 hreads)
  case factor => exact fun s => readsOnly_factor

/-- An expression that is read without a report is derived from the tokens read. -/
theorem derives_of_reads_expr {s t : State} {e : Expr} (h : Rule.expr.Reads s e t)
    (hs : s.Numerals) : ∃ tokens, s.Behind tokens t ∧ Derives s.types .expr tokens e :=
  readsOnly_chain .loose s hs e t h

end MiniPL.Parser
