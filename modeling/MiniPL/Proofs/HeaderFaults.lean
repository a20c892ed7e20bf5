import MiniPL.Proofs.Headers
import MiniPL.Proofs.Recovery

/-!
# Loops with a broken header

What reading makes of a program in which the tokens between the `for` and the `do` of one loop, at
any level of nesting, are replaced by others that are no header.  The fault lies in front of the
`do` or at it, because the rules of a header pass only tokens that stand inside of statements
(`Parser.Rule.PassesInner`); so the header is skipped through its own `do`, the body is read to its
own `end`, and that loop alone is left out, with one report.

Every loop of a tree has its tokens (`Grammar.IsBlock.exists_loop`), and what a block makes of a
program is known once it is known what it makes of the tokens in a hole of it
(`Parser.blockRun_of_surrounds`).  Main statement: `Parser.parse_with_broken_header`.
-/

namespace MiniPL

namespace Grammar

/-! ### Broken headers -/

/-- `IsBrokenHeader header do`: together with the `do`, the tokens are no header.  None of them ends
a header, a statement or the input, or stands in for another token; and their integer literals are
runs of digits, as everywhere in a text. -/
structure IsBrokenHeader (header : List Token) («do» : Token) : Prop where
  plain : ∀ token ∈ header,
    token.kind ∉ [.keyword .do, .semicolon, .keyword .end, .unknown, .eof]
  numerals : ∀ token ∈ header, token.kind = .intLiteral → token.number?.isSome = true
  broken : ∀ types counter start stop, ¬ IsHeader types (header ++ [«do»]) counter start stop

/-- Tokens that do not start with a name are a broken header. -/
theorem isBrokenHeader_of_first (first «do» : Token) (header : List Token)
    (hplain : ∀ token ∈ first :: header,
      token.kind ∉ [.keyword .do, .semicolon, .keyword .end, .unknown, .eof])
    (hnumerals : ∀ token ∈ first :: header, token.kind = .intLiteral →
      token.number?.isSome = true)
    (hfirst : first.kind ≠ .identifier) : IsBrokenHeader (first :: header) «do» := by
  refine ⟨hplain, hnumerals, fun types counter start stop h => ?_⟩
  generalize htokens : first :: header ++ [«do»] = tokens at h
  cases h with
  | mk hname => exact hfirst ((List.cons.inj htokens).1 ▸ hname)

/-! ### The tokens of the loops of a tree -/

/-- The tokens of blocks one after another are tokens of the first and tokens of the second. -/
theorem IsBlock.exists_of_append {types types'' : TypeTable} {tokens : List Token} {b c : Block}
    (h : IsBlock types tokens (b ++ c) types'') :
    ∃ front back types', tokens = front ++ back ∧ IsBlock types front b types' ∧
      IsBlock types' back c types'' := by
  induction b generalizing types tokens with
  | nil => exact ⟨[], tokens, types, rfl, .nil, h⟩
  | cons v b ih =>
    cases h with
    | simple h hrest =>
      obtain ⟨front, back, types', rfl, hfront, hback⟩ := ih hrest
      exact ⟨_, back, types', (List.append_assoc _ _ _).symm, .simple h hfront, hback⟩
    | loop hfor hheader hbody hend hrest =>
      obtain ⟨front, back, types', rfl, hfront, hback⟩ := ih hrest
      exact ⟨_, back, types', (List.append_assoc _ _ _).symm,
        .loop hfor hheader hbody hend hfront, hback⟩

/-- The tokens of a block with a loop in it are those of the loop, between others. -/
theorem IsBlock.exists_of_mid {types types'' : TypeTable} {tokens : List Token}
    {before after body : Block} {counter : Identifier} {start stop : Expr}
    (h : IsBlock types tokens (before ++ [.loop counter start stop body] ++ after) types'') :
    ∃ left «for» header inner ending right types₁ types₂,
      tokens = left ++ («for» :: header ++ inner ++ ending) ++ right ∧
      IsBlock types left before types₁ ∧ «for».kind = .keyword .for ∧
      IsHeader types₁ header counter start stop ∧ IsBlock types₁ inner body types₂ ∧
      IsEnd ending ∧ IsBlock types₂ right after types'' := by
  obtain ⟨front, right, types₂, rfl, hfront, hright⟩ := h.exists_of_append
  obtain ⟨left, loop, types₁, rfl, hleft, hloop⟩ := hfront.exists_of_append
  cases hloop with
  | simple h => cases h
  | @loop _ _ _ «for» header inner ending rest _ _ _ _ _ hfor hheader hbody hend hrest =>
    cases hrest
    refine ⟨left, «for», header, inner, ending, right, types₁, types₂, ?_, hleft, hfor, hheader,
      hbody, hend, hright⟩
    rw [List.append_nil]

/-- Every loop of a block, at any level of nesting, has its tokens. -/
theorem IsBlock.exists_loop {types types' : TypeTable} {tokens : List Token} {b body : Block}
    {context : Block.Context} {counter : Identifier} {start stop : Expr}
    (h : IsBlock types tokens b types') (hb : b = context.fill [.loop counter start stop body]) :
    ∃ left «for» header «do» inner ending right types₁ types₂,
      tokens = left ++ («for» :: header ++ «do» :: inner ++ ending) ++ right ∧
      Surrounds types left context right ∧ «for».kind = .keyword .for ∧
      «do».kind = .keyword .do ∧ IsHeader types₁ (header ++ [«do»]) counter start stop ∧
      IsBlock types₁ inner body types₂ ∧ IsEnd ending := by
  induction context generalizing types types' tokens b with
  | here before after =>
    subst hb
    obtain ⟨left, «for», header, inner, ending, right, types₁, types₂, rfl, hleft, hfor, hheader,
      hbody, hend, hright⟩ := IsBlock.exists_of_mid h
    obtain ⟨header, «do», rfl, hdo, -⟩ := hheader.exists_inner
    refine ⟨left, «for», header, «do», inner, ending, right, types₁, types₂, ?_, .here hleft hright,
      hfor, hdo, hheader, hbody, hend⟩
    simp only [List.append_assoc, List.cons_append, List.nil_append]
  | inLoop before counter' start' stop' context after ih =>
    subst hb
    obtain ⟨front, for', header', inner', ending', rest, types₁, types₂, rfl, hfront, hfor',
      hheader', hbody', hend', hrest⟩ := IsBlock.exists_of_mid h
    obtain ⟨left, «for», header, «do», inner, ending, right, types₃, types₄, rfl, hcontext, hfor,
      hdo, hheader, hbody, hend⟩ := ih hbody' rfl
    refine ⟨_, «for», header, «do», inner, ending, _, types₃, types₄, ?_,
      .inLoop hfront hfor' hheader' hcontext hend' hrest, hfor, hdo, hheader, hbody, hend⟩
    simp only [List.append_assoc, List.cons_append]

end Grammar

namespace Parser

open Grammar

/-! ### Rules that pass only what stands inside of statements -/

namespace State

/-- Between two states stand only tokens from inside of statements and tokens that could not be
classified; without the latter, nothing is reported. -/
def PassesInner (s t : State) : Prop :=
  ∃ passed, s.rest = passed ++ t.rest ∧
    (∀ token ∈ passed, token.kind.isInner = true ∨ token.kind = .unknown) ∧
    ((∀ token ∈ passed, token.kind ≠ .unknown) → t.diagnostics = s.diagnostics)

/-- A syntax error at the token in front of which reading stops, inside of a statement. -/
structure FailsInside (s : State) (fault : Diagnostic) (t : State) : Prop where
  passes : s.PassesInner t
  kind : fault.kind = .syntaxError
  position : fault.position = t.current.position

variable {s t u : State} {fault : Diagnostic}

theorem PassesInner.refl (s : State) : s.PassesInner s :=
  ⟨[], rfl, List.forall_mem_nil _, fun _ => rfl⟩

theorem PassesInner.trans (h : s.PassesInner t) (k : t.PassesInner u) : s.PassesInner u := by
  obtain ⟨passed, hrest, hkinds, hdiag⟩ := h
  obtain ⟨passed', hrest', hkinds', hdiag'⟩ := k
  refine ⟨passed ++ passed', ?_, List.forall_mem_append.2 ⟨hkinds, hkinds'⟩, fun hknown => ?_⟩
  · rw [hrest, hrest', List.append_assoc]
  · obtain ⟨hknown, hknown'⟩ := List.forall_mem_append.1 hknown
    rw [hdiag' hknown', hdiag hknown]

theorem passesInner_advance {kind : TokenKind} (h : s.current.kind = kind)
    (hinner : kind.isInner = true) : s.PassesInner s.advance := by
  obtain ⟨rest, hrest, hadvance⟩ := rest_eq_of_kind h (by rintro rfl; cases hinner)
  rw [hadvance]
  exact ⟨[s.current], hrest, List.forall_mem_singleton.2 (.inl (h ▸ hinner)), fun _ => rfl⟩

theorem passesInner_standIn (h : s.current.kind = .unknown) :
    s.PassesInner (s.report (.unclassified s.current)).advance := by
  obtain ⟨rest, hrest, -⟩ := rest_eq_of_kind h (by decide)
  refine ⟨[s.current], ?_, List.forall_mem_singleton.2 (.inr h), fun hknown => ?_⟩
  · show s.rest = s.current :: s.rest.tail
    rw [hrest]
    rfl
  · exact absurd h (hknown _ (List.mem_singleton_self _))

theorem FailsInside.here (hkind : fault.kind = .syntaxError)
    (hposition : fault.position = s.current.position) : s.FailsInside fault s :=
  ⟨.refl s, hkind, hposition⟩

theorem FailsInside.behind (h : s.PassesInner t) (k : t.FailsInside fault u) :
    s.FailsInside fault u :=
  ⟨h.trans k.passes, k.kind, k.position⟩

/-- In front of tokens that end in a `do`, and hold no other and nothing unclassified, only some of
these are passed. -/
theorem PassesInner.before_do {header rest : List Token} {«do» : Token} (h : s.PassesInner t)
    (hrest : s.rest = header ++ «do» :: rest) (hdo : «do».kind = .keyword .do)
    (hplain : ∀ token ∈ header, token.kind ≠ .unknown) :
    t.diagnostics = s.diagnostics ∧
      ∃ header', header' <:+ header ∧ t.rest = header' ++ «do» :: rest := by
  obtain ⟨passed, hpassed, hkinds, hdiag⟩ := h
  rcases append_eq_append_cons (hpassed.symm.trans hrest) with
    ⟨passed', rfl, -⟩ | ⟨header', rfl, hrest'⟩
  · rcases hkinds «do» (List.mem_append_right _ List.mem_cons_self) with hkind | hkind <;>
      · rw [hdo] at hkind
        cases hkind
  · refine ⟨hdiag fun token hmem => ?_, header', List.suffix_append _ _, hrest'⟩
    exact hplain token (List.mem_append_left _ hmem)

end State

namespace Rule

variable {α β : Type} {s t : State} {rule : Rule α}

/-- The rule passes only tokens from inside of statements, and fails with a syntax error at the
token in front of which it stops. -/
structure PassesInner (rule : Rule α) (s : State) : Prop where
  ok : ∀ value t, rule.run s = .ok value t → s.PassesInner t
  error : ∀ fault t, rule.run s = .error fault t → s.FailsInside fault t

theorem passesInner_of_run_ok {value : α} (hrun : rule.run s = .ok value t)
    (h : s.PassesInner t) : rule.PassesInner s := by
  constructor
  · intro value' t' hrun'
    rw [hrun] at hrun'
    cases hrun'
    exact h
  · intro fault t' hrun'
    rw [hrun] at hrun'
    cases hrun'

theorem passesInner_of_run_error {fault : Diagnostic} (hrun : rule.run s = .error fault t)
    (h : s.FailsInside fault t) : rule.PassesInner s := by
  constructor
  · intro value t' hrun'
    rw [hrun] at hrun'
    cases hrun'
  · intro fault' t' hrun'
    rw [hrun] at hrun'
    cases hrun'
    exact h

theorem PassesInner.of_run_eq {rule' : Rule α} (hrun : rule.run s = rule'.run t)
    (h : s.PassesInner t) (k : rule'.PassesInner t) : rule.PassesInner s where
  ok value u hrun' := h.trans (k.ok value u (hrun.symm.trans hrun'))
  error fault u hrun' := .behind h (k.error fault u (hrun.symm.trans hrun'))

theorem passesInner_pure (value : α) (s : State) : (pure value : Rule α).PassesInner s :=
  passesInner_of_run_ok (run_pure value s) (.refl s)

theorem PassesInner.bind {next : α → Rule β} (h : rule.PassesInner s)
    (k : ∀ value t, s.Reaches t → (next value).PassesInner t) : (rule >>= next).PassesInner s := by
  cases hrun : rule.run s with
  | ok value t =>
    have hbind : (rule >>= next).run s = (next value).run t := by rw [run_bind, hrun]
    exact .of_run_eq hbind (h.ok value t hrun) (k value t (reaches_of_run_ok hrun))
  | error fault t =>
    have hbind : (rule >>= next).run s = .error fault t := by rw [run_bind, hrun]
    exact passesInner_of_run_error hbind (h.error fault t hrun)

theorem passesInner_expect {kind : TokenKind} (hinner : kind.isInner = true) (s : State) :
    (expect kind).PassesInner s := by
  have hrun := run_expect kind s
  split at hrun
  · rename_i h
    exact passesInner_of_run_ok hrun (State.passesInner_advance h hinner)
  split at hrun
  · rename_i h
    exact passesInner_of_run_ok hrun (State.passesInner_standIn h)
  · exact passesInner_of_run_error hrun (.here rfl rfl)

theorem passesInner_identifier (s : State) : identifier.PassesInner s :=
  (passesInner_expect rfl s).bind fun token t _ =>
    passesInner_of_run_ok (run_reference token t) (.refl t)

theorem passesInner_chainFrom {level : Level} {left : Expr}
    (h : ∀ sign rest op, s.rest = sign :: rest → level.operator? sign.kind = some op →
      (operand level).PassesInner s.advance ∧ ∀ right t, s.advance.Reaches t →
        (chainFrom level (.binary op left right sign.position)).PassesInner t) :
    (chainFrom level left).PassesInner s := by
  have hrun := run_chainFrom level left s
  split at hrun
  · exact passesInner_of_run_ok hrun (.refl s)
  · rename_i op hop
    have hsign := (Level.sign_of_operator? hop).1
    obtain ⟨rest, hrest, -⟩ := State.rest_eq_of_kind hsign (sign_ne_of_isInner op rfl)
    obtain ⟨hoperand, hmore⟩ := h _ rest op hrest hop
    exact .of_run_eq hrun (State.passesInner_advance hsign (isInner_sign op)) (hoperand.bind hmore)

theorem passesInner_factor
    (hparen : ∀ token rest, s.rest = token :: rest → token.kind = .leftParen →
      (chain .loose).PassesInner s.advance)
    (hnot : ∀ token rest, s.rest = token :: rest → token.kind = .not →
      factor.PassesInner s.advance) :
    factor.PassesInner s := by
  have hrun := run_factor s
  split at hrun
  · rename_i hkind
    split at hrun
    · exact passesInner_of_run_ok hrun (State.passesInner_advance hkind rfl)
    · exact passesInner_of_run_error hrun (.here rfl rfl)
  · rename_i hkind
    exact passesInner_of_run_ok hrun (State.passesInner_advance hkind rfl)
  · rename_i hkind
    exact passesInner_of_run_ok hrun (State.passesInner_advance hkind rfl)
  · rename_i hkind
    exact passesInner_of_run_ok hrun (State.passesInner_advance hkind rfl)
  · rename_i hkind
    obtain ⟨rest, hrest, -⟩ := State.rest_eq_of_kind hkind (by decide)
    have hinner : expr.PassesInner s.advance := hparen _ rest hrest hkind
    refine .of_run_eq hrun (State.passesInner_advance hkind rfl) (hinner.bind fun e t _ => ?_)
    exact (passesInner_expect rfl t).bind fun _ u _ => passesInner_pure e u
  · rename_i hkind
    obtain ⟨rest, hrest, -⟩ := State.rest_eq_of_kind hkind (by decide)
    refine .of_run_eq hrun (State.passesInner_advance hkind rfl) ?_
    exact (hnot _ rest hrest hkind).bind fun e t _ => passesInner_pure _ t
  · exact passesInner_of_run_error hrun (.here rfl rfl)

theorem passesInner_expr (s : State) : expr.PassesInner s := by
  refine (expr_induction (fun level s => (chain level).PassesInner s)
    (fun level s => (operand level).PassesInner s)
    (fun level left s => (chainFrom level left).PassesInner s)
    (fun s => factor.PassesInner s) ?chain ?loop ?loose ?tight ?factor).1 .loose s
  case chain =>
    intro level s hoperand hloop
    exact .of_run_eq (run_chain level s) (.refl s) (hoperand.bind hloop)
  case loop => exact fun level left s => passesInner_chainFrom
  case loose => exact fun s h => .of_run_eq (run_operand_loose s) (.refl s) h
  case tight => exact fun s h => .of_run_eq (run_operand_tight s) (.refl s) h
  case factor => exact fun s => passesInner_factor

/-! ### Headers end with `do` -/

/-- The rule passes only tokens from inside of statements, and then a `do` or a token that stands in
for it, or it fails in front of that. -/
structure EndsWithDo (rule : Rule α) (s : State) : Prop where
  ok : ∀ value t, rule.run s = .ok value t → ∃ u, s.PassesInner u ∧
    (u.current.kind = .keyword .do ∧ t = u.advance ∨ u.current.kind = .unknown)
  error : ∀ fault t, rule.run s = .error fault t → s.FailsInside fault t

theorem PassesInner.bind_do {next : α → Rule β} (h : rule.PassesInner s)
    (k : ∀ value t, (next value).EndsWithDo t) : (rule >>= next).EndsWithDo s := by
  constructor
  · intro value u hrun
    rw [run_bind] at hrun
    cases hrule : rule.run s with
    | error fault t => rw [hrule] at hrun; cases hrun
    | ok a t =>
      rw [hrule] at hrun
      obtain ⟨v, hpasses, hv⟩ := (k a t).ok value u hrun
      exact ⟨v, (h.ok a t hrule).trans hpasses, hv⟩
  · intro fault u hrun
    rw [run_bind] at hrun
    cases hrule : rule.run s with
    | error fault' t =>
      rw [hrule] at hrun
      cases hrun
      exact h.error fault u hrule
    | ok a t =>
      rw [hrule] at hrun
      exact .behind (h.ok a t hrule) ((k a t).error fault u hrun)

theorem endsWithDo_expect (value : α) (s : State) :
    (do let _ ← expect (.keyword .do); return value : Rule α).EndsWithDo s := by
  have hrun := run_bind (expect (.keyword .do)) (fun _ => (pure value : Rule α)) s
  rw [run_expect] at hrun
  by_cases hdo : s.current.kind = .keyword .do
  · rw [if_pos hdo] at hrun
    constructor
    · intro value' t hrun'
      cases hrun.symm.trans hrun'
      exact ⟨s, .refl s, .inl ⟨hdo, rfl⟩⟩
    · intro fault t hrun'
      cases hrun.symm.trans hrun'
  rw [if_neg hdo] at hrun
  by_cases hunknown : s.current.kind = .unknown
  · rw [if_pos hunknown] at hrun
    constructor
    · exact fun _ _ _ => ⟨s, .refl s, .inr hunknown⟩
    · intro fault t hrun'
      cases hrun.symm.trans hrun'
  · rw [if_neg hunknown] at hrun
    constructor
    · intro value' t hrun'
      cases hrun.symm.trans hrun'
    · intro fault t hrun'
      cases hrun.symm.trans hrun'
      exact .here rfl rfl

theorem endsWithDo_loopHeader (s : State) : loopHeader.EndsWithDo s := by
  refine (passesInner_identifier s).bind_do fun counter t => ?_
  refine (passesInner_expect rfl t).bind_do fun _ u => ?_
  refine (passesInner_expr u).bind_do fun start v => ?_
  refine (passesInner_expect rfl v).bind_do fun _ w => ?_
  refine (passesInner_expr w).bind_do fun stop x => ?_
  exact endsWithDo_expect _ x

end Rule

/-- A faulty header is skipped through its `do`. -/
theorem behindHeader_of_do {header rest : List Token} {«do» : Token}
    (hheader : ∀ token ∈ header,
      token.kind ∉ [.keyword .do, .semicolon, .keyword .end, .unknown, .eof])
    (hdo : «do».kind = .keyword .do) : behindHeader (header ++ «do» :: rest) = rest := by
  induction header with
  | nil => simp [behindHeader, hdo]
  | cons token header ih =>
    obtain ⟨hplain, hheader⟩ := List.forall_mem_cons.1 hheader
    simp only [List.mem_cons, not_or] at hplain
    obtain ⟨hdo', hsemicolon, hend, -⟩ := hplain
    rw [List.cons_append, behindHeader, if_neg hend, if_neg (not_or.2 ⟨hdo', hsemicolon⟩)]
    exact ih hheader

/-- A broken header fails in front of its `do` or at it. -/
theorem run_loopHeader_of_isBrokenHeader {s : State} {header rest : List Token} {«do» : Token}
    (h : IsBrokenHeader header «do») (hdo : «do».kind = .keyword .do) (hs : s.Numerals)
    (hrest : s.rest = header ++ «do» :: rest) :
    ∃ fault t, Rule.loopHeader.run s = .error fault t ∧ t.diagnostics = s.diagnostics ∧
      behindHeader t.rest = rest ∧ IsFaultOf (header ++ [«do»]) fault := by
  have hknown : ∀ token ∈ header, token.kind ≠ .unknown := by
    intro token hmem hkind
    exact h.plain token hmem (by rw [hkind]; decide)
  -- wherever reading stops in front of the `do`, the current token is one of the header or the `do`
  have hcurrent : ∀ (u : State) (header' : List Token), header' <:+ header →
      u.rest = header' ++ «do» :: rest → u.current ∈ header ∨ header' = [] ∧ u.current = «do» := by
    intro u header' hsuffix hrest'
    cases header' with
    | nil => exact .inr ⟨rfl, State.current_eq hrest'⟩
    | cons token header' =>
      rw [State.current_eq hrest']
      exact .inl (hsuffix.mem List.mem_cons_self)
  cases hrun : Rule.loopHeader.run s with
  | error fault t =>
    obtain ⟨hpasses, hkind, hposition⟩ := (Rule.endsWithDo_loopHeader s).error fault t hrun
    obtain ⟨hdiag, header', hsuffix, hrest'⟩ := hpasses.before_do hrest hdo hknown
    refine ⟨fault, t, rfl, hdiag, ?_, hkind, t.current, ?_, hposition⟩
    · rw [hrest']
      exact behindHeader_of_do (fun token hmem => h.plain token (hsuffix.mem hmem)) hdo
    · rcases hcurrent t header' hsuffix hrest' with hmem | ⟨-, heq⟩
      · exact List.mem_append_left _ hmem
      · exact List.mem_append_right _ (heq ▸ List.mem_singleton_self _)
  | ok value t =>
    -- the header would have been read through its `do` without a report
    obtain ⟨u, hpasses, hu⟩ := (Rule.endsWithDo_loopHeader s).ok value t hrun
    obtain ⟨hdiag, header', hsuffix, hrest'⟩ := hpasses.before_do hrest hdo hknown
    rcases hcurrent u header' hsuffix hrest' with hmem | ⟨rfl, heq⟩
    · rcases hu with ⟨hkind, -⟩ | hkind
      · exact absurd (by rw [hkind]; decide) (h.plain _ hmem)
      · exact absurd hkind (hknown _ hmem)
    · rcases hu with ⟨-, rfl⟩ | hkind
      · obtain ⟨tokens, hbehind, hheader⟩ := isHeader_of_reads hs ⟨hrun, hdiag⟩
        have htokens : header ++ «do» :: rest = tokens ++ rest := by
          rw [← hrest, hbehind.1, State.advance_eq hrest']
          rfl
        rw [List.append_cons] at htokens
        obtain rfl := List.append_cancel_right htokens
        exact absurd hheader (h.broken _ _ _ _)
      · rw [heq, hdo] at hkind
        cases hkind

/-! ### Tokens in the hole of a program -/

/-- To know what a block makes of a program it is enough to know what it makes of the tokens in the
hole: what is taken there is taken with the statements around it, with the same reports. -/
theorem blockRun_of_surrounds {types : TypeTable} {left right : List Token}
    {context : Block.Context} (h : Surrounds types left context right) :
    ∀ (inLoop : Bool) (s : State) (tokens rest : List Token),
      s.rest = left ++ (tokens ++ (right ++ rest)) →
        ∃ inLoop' s', s'.rest = tokens ++ (right ++ rest) ∧ s'.diagnostics = s.diagnostics ∧
          ∀ b t, t.rest = right ++ rest →
            blockRun inLoop' s' = (b ++ (blockRun inLoop' t).1, (blockRun inLoop' t).2) →
              ∃ c u, blockRun inLoop s = (c ++ (blockRun inLoop u).1, (blockRun inLoop u).2) ∧
                c.untagged = (context.fill b).untagged ∧ u.rest = rest ∧
                u.diagnostics = t.diagnostics := by
  induction h with
  | @here _ _ _ _ left right before after hleft hright =>
    intro inLoop s tokens rest hrest
    obtain ⟨b₁, s', hrun, hb₁, hs', hdiag⟩ := takes_of_isBlock hleft inLoop s _ hrest
    rw [List.append_nil] at hdiag
    refine ⟨inLoop, s', hs', hdiag, fun b t ht hb => ?_⟩
    obtain ⟨b₂, u, hrun', hb₂, hu, hdiag'⟩ := takes_of_isBlock hright inLoop t rest ht
    rw [List.append_nil] at hdiag'
    refine ⟨b₁ ++ b ++ b₂, u, ?_, ?_, hu, hdiag'⟩
    · rw [hrun, hb, hrun', List.append_assoc, List.append_assoc]
    · simp only [Block.Context.fill, Block.untagged_append, hb₁, hb₂]
  | @inLoop _ _ _ _ front left right ending after «for» header before after' counter start stop
      inner hfront hfor hheader hinner hend hafter ih =>
    intro inLoop s tokens rest hrest
    simp only [List.append_assoc, List.cons_append] at hrest
    obtain ⟨b₁, s₁, hrun, hb₁, hs₁, hdiag⟩ := takes_of_isBlock hfront inLoop s _ hrest
    obtain ⟨counter', start', stop', hheader', hc, hx, hy⟩ := hheader.retype s₁.types
    obtain ⟨inLoop', s', hs', hdiag', hfill⟩ :=
      ih true (s₁.skipTo (left ++ (tokens ++ (right ++ (ending ++ (after ++ rest)))))) tokens _ rfl
    rw [List.append_nil] at hdiag
    refine ⟨inLoop', s', ?_, hdiag'.trans hdiag, fun b t ht hb => ?_⟩
    · rw [hs', List.append_assoc, List.append_assoc]
    rw [List.append_assoc, List.append_assoc] at ht
    obtain ⟨c, u, hbody, hcuntagged, hu, hdiag₂⟩ := hfill b t ht hb
    have hbody' : blockRun true
        (s₁.skipTo (left ++ (tokens ++ (right ++ (ending ++ (after ++ rest)))))) = (c, u) := by
      cases hend with
      | mk hend _ _ => rw [hbody, blockRun_of_end hu hend, List.append_nil]
    obtain ⟨b₂, v, hrun', hb₂, hv, hdiag₃⟩ :=
      takes_of_isBlock hafter inLoop (u.skipTo (after ++ rest)) rest rfl
    rw [List.append_nil] at hdiag₃
    refine ⟨b₁ ++ [.loop counter' start' stop' c] ++ b₂, v, ?_, ?_, hv, hdiag₃.trans hdiag₂⟩
    · rw [hrun, blockRun_of_isHeader hfor hheader' hs₁ hbody' hend hu, hrun']
      simp only [List.append_assoc, List.cons_append, List.nil_append]
    · have hloop : Block.untagged [.loop counter' start' stop' c] =
          Block.untagged [.loop counter start stop (inner.fill b)] := by
        show [Statement.loop (counter'.relabel _ id) start'.untagged stop'.untagged c.untagged] = _
        rw [hc, hx, hy, hcuntagged]
        rfl
      simp only [Block.Context.fill, Block.untagged_append, hb₁, hb₂, hloop]

/-- What reading makes of a program with tokens in its hole, from what a block makes of these. -/
theorem parseTokens_of_surrounds {types : TypeTable} {left tokens right : List Token}
    {context : Block.Context} (h : Surrounds types left context right) (known : TypeTable)
    (hne : ∀ token ∈ left ++ (tokens ++ right), token.kind ≠ .eof) :
    ∃ inLoop s, s.rest = tokens ++ right ∧ s.diagnostics = [] ∧
      ∀ b t, t.rest = right →
        blockRun inLoop s = (b ++ (blockRun inLoop t).1, (blockRun inLoop t).2) →
          let parsed := parseTokens (left ++ (tokens ++ right)) known
          parsed.program.statements.untagged = (context.fill b).untagged ∧
            parsed.diagnostics = t.diagnostics := by
  obtain ⟨inLoop, s, hs, hdiag, hfill⟩ := blockRun_of_surrounds h false
    (.initial known (left ++ (tokens ++ right))) tokens []
    (by rw [State.rest_initial hne, List.append_nil])
  rw [List.append_nil] at hs hfill
  refine ⟨inLoop, s, hs, hdiag, fun b t ht hb => ?_⟩
  obtain ⟨c, u, hrun, hc, hu, hdiag'⟩ := hfill b t ht hb
  rw [blockRun_of_nil hu, List.append_nil] at hrun
  exact ⟨(congrArg (fun run => Block.untagged run.1) hrun).trans hc,
    (congrArg (fun run => run.2.diagnostics) hrun).trans hdiag'⟩

/-! ### The program with the broken header -/

/-- A loop with a broken header is left out, through its own end, with one report. -/
theorem blockRun_of_isBrokenHeader (inLoop : Bool) {s : State} {types types' : TypeTable}
    {header inner ending rest : List Token} {«for» «do» : Token} {body : Block}
    (h : IsBrokenHeader header «do») (hfor : «for».kind = .keyword .for)
    (hdo : «do».kind = .keyword .do) (hbody : IsBlock types inner body types')
    (hend : IsEnd ending) (hs : s.Numerals)
    (hrest : s.rest = «for» :: (header ++ «do» :: (inner ++ (ending ++ rest)))) :
    ∃ fault t, blockRun inLoop s = blockRun inLoop t ∧ t.rest = rest ∧
      t.diagnostics = s.diagnostics ++ [fault] ∧ IsFaultOf (header ++ [«do»]) fault := by
  have hs' : (s.skipTo (header ++ «do» :: (inner ++ (ending ++ rest)))).Numerals :=
    hs.of_suffix (hrest ▸ List.suffix_cons _ _)
  obtain ⟨fault, t, hrun, hdiag, hskip, hfault⟩ :=
    run_loopHeader_of_isBrokenHeader h hdo hs' rfl
  obtain ⟨u, hu, hurest, hudiag⟩ :=
    blockRun_of_faultyHeader inLoop hrest hfor hrun hskip (takes_of_isBlock hbody) hend
  refine ⟨fault, u, hu, hurest, ?_, hfault⟩
  rw [hudiag, hdiag]
  rfl

/-- In a clean program, the tokens between the `for` and the `do` of a loop, at any level of
nesting, are replaced by others that are no header.  There is one report, a syntax error at one of
the new tokens or at the `do`, and the statements are those of the program without that loop. -/
theorem parse_with_broken_header (text : String) (known : TypeTable) (context : Block.Context)
    (counter : Identifier) (start stop : Expr) (body : Block)
    (hclean : (parseText text known).isClean = true)
    (hloop : (parseText text known).program.statements =
      context.fill [.loop counter start stop body]) :
    ∃ left «for» header «do» back types,
      tokenize text = left ++ «for» :: header ++ «do» :: back ∧
      IsLoopAt known (left ++ «for» :: header) «do» back context (.loop counter start stop body) ∧
      «for».kind = .keyword .for ∧ IsHeader types (header ++ [«do»]) counter start stop ∧
      ∀ header', IsBrokenHeader header' «do» →
        let parsed := parse (left ++ «for» :: header' ++ «do» :: back) known
        ∃ fault, parsed.diagnostics = [fault] ∧ IsFaultOf (header' ++ [«do»]) fault ∧
          parsed.program.statements.untagged = (context.fill []).untagged := by
  obtain ⟨types', hblock⟩ := isBlock_of_isClean hclean
  obtain ⟨left, «for», header, «do», inner, ending, right, types₁, types₂, htokens, hcontext, hfor,
    hdo, hheader, hbody, hend⟩ := hblock.exists_loop hloop
  have htext : tokenize text = left ++ «for» :: header ++ «do» :: (inner ++ (ending ++ right)) := by
    rw [htokens]
    simp only [List.append_assoc, List.cons_append]
  refine ⟨left, «for», header, «do», inner ++ (ending ++ right), types₁, htext,
    .mk hcontext hfor hheader hbody hend, hfor, hheader, fun header' hbroken => ?_⟩
  let loop := «for» :: (header' ++ «do» :: (inner ++ ending))
  -- what holds of the tokens of a text and of the new ones holds of all tokens that are read
  have hall : ∀ p : Token → Prop, (∀ token ∈ tokenize text, p token) →
      (∀ token ∈ header', p token) → ∀ token ∈ left ++ (loop ++ right), p token := by
    intro p hp hp' token hmem
    by_cases hnew : token ∈ header'
    · exact hp' token hnew
    · refine hp token ?_
      simp only [loop, htext, List.mem_append, List.mem_cons] at hmem ⊢
      tauto
  have hne : ∀ token ∈ left ++ (loop ++ right), token.kind ≠ .eof :=
    hall _ (fun _ => Lexer.kind_ne_eof_of_mem_tokenize) fun token hmem hkind =>
      hbroken.plain token hmem (by rw [hkind]; decide)
  have hnumerals : ∀ token ∈ left ++ (loop ++ right), token.kind = .intLiteral →
      token.number?.isSome = true :=
    hall _ (State.rest_initial_tokenize known text ▸ State.numerals_initial known text)
      hbroken.numerals
  have hparse : parse (left ++ «for» :: header' ++ «do» :: (inner ++ (ending ++ right))) known =
      parseTokens (left ++ (loop ++ right)) known := by
    refine (congrArg (parseTokens · known) (TokenStream.drain_list _)).trans ?_
    simp only [loop, List.append_assoc, List.cons_append]
  rw [hparse]
  obtain ⟨inLoop, s, hs, hquiet, hfill⟩ := parseTokens_of_surrounds hcontext known hne
  have hs' : s.Numerals := fun token hmem => by
    rw [hs] at hmem
    exact hnumerals token (List.mem_append_right _ hmem)
  have hrest : s.rest = «for» :: (header' ++ «do» :: (inner ++ (ending ++ right))) := by
    rw [hs]
    simp only [loop, List.append_assoc, List.cons_append]
  obtain ⟨fault, t, hrun, ht, hdiag, hfault⟩ :=
    blockRun_of_isBrokenHeader inLoop hbroken hfor hdo hbody hend hs' hrest
  obtain ⟨huntagged, hreports⟩ := hfill [] t ht hrun
  exact ⟨fault, by rw [hreports, hdiag, hquiet]; rfl, hfault, huntagged⟩

/-- A loop in a loop, with `for ( 7 ..` between its `for` and its `do`. -/
theorem parse_with_broken_inner_header :
    let text := "for i in 1..2 do for j in 1..3 do print j; end for; print i; end for;"
    let header' : List Token := [⟨.keyword .for, "for", ⟨1, 22⟩⟩, ⟨.leftParen, "(", ⟨1, 26⟩⟩,
      ⟨.intLiteral, "7", ⟨1, 28⟩⟩, ⟨.range, "..", ⟨1, 30⟩⟩]
    (parseText text).isClean = true ∧ ∃ context counter start stop body,
      (parseText text).program.statements = context.fill [.loop counter start stop body] ∧
      ∃ left «for» header «do» back types,
        tokenize text = left ++ «for» :: header ++ «do» :: back ∧
        IsLoopAt .empty (left ++ «for» :: header) «do» back context
          (.loop counter start stop body) ∧
        «for».kind = .keyword .for ∧ IsHeader types (header ++ [«do»]) counter start stop ∧
        IsBrokenHeader header' «do» ∧
        let parsed := parse (left ++ «for» :: header' ++ «do» :: back)
        ∃ fault, parsed.diagnostics = [fault] ∧ IsFaultOf (header' ++ [«do»]) fault ∧
          parsed.program.statements.untagged = (context.fill []).untagged := by
  intro text header'
  have hclean : (parseText text).isClean = true := by decide +kernel
  have htokens : tokenize text = (tokenize text).take 13 ++
      ⟨.keyword .do, "do", ⟨1, 32⟩⟩ :: (tokenize text).drop 14 := by decide +kernel
  obtain ⟨types', hblock⟩ := isBlock_of_isClean hclean
  obtain ⟨context, loop, hloop, hfill⟩ := hblock.isLoopAt htokens rfl
  have hbroken : ∀ «do», IsBrokenHeader header' «do» := fun «do» =>
    isBrokenHeader_of_first _ «do» _ (by decide) (by decide +kernel) (by decide)
  generalize (tokenize text).take 13 = front, (tokenize text).drop 14 = back at hloop
  cases hloop with
  | @mk _ _ _ _ _ _ _ _ _ _ counter start stop body =>
    obtain ⟨left, «for», header, «do», back, types, htext, hat, hfor, hheader, hall⟩ :=
      parse_with_broken_header text .empty context counter start stop body hclean hfill
    exact ⟨hclean, context, counter, start, stop, body, hfill, left, «for», header, «do», back,
      types, htext, hat, hfor, hheader, hbroken «do», hall header' (hbroken «do»)⟩

end Parser

end MiniPL
