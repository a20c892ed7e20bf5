import MiniPL.Proofs.Sentences

/-!
# Unclassified tokens as stand-ins

Where the grammar asks for one kind of token and its rules look at no other, a token that could not
be classified is reported and taken in its place.  So such tokens may stand in for any of the marks
of a clean program: the program is the same, each stand-in is reported once, and nothing else is.

Both texts are read side by side (`Parser.State.Twin`): the reports made so far on the one with
stand-ins, and those that its tokens still to read will cost, are the same list all along.  A rule
that keeps this up is `Parser.Rule.Tolerates`; it is closed under sequencing.  Whether `:=`, `for`
or `(` is a mark that the rules do not look at is told by the token in front of it
(`TokenKind.isMarkBehind`); at the places where rules do look, that token is another one
(`TokenKind.settles`).

Main statement: `Parser.parse_with_standIns`.
-/

namespace MiniPL

/-! ### Marks and stand-ins -/

/-- Whether a token of a clean program, behind a token of the kind `previous?`, is a mark that the
grammar asks for with no choice: the `;` of a statement, the `:` of a declaration, the `:=` of an
assignment, which stands behind a name, `in`, `..` and `do` of a loop, the `for` that stands behind
its `end`, the parentheses of an assertion, and each other `)`. -/
def TokenKind.isMarkBehind (previous? : Option TokenKind) : TokenKind → Bool
  | .semicolon | .colon | .keyword .in | .range | .keyword .do | .rightParen => true
  | .assign => previous? == some .identifier
  | .keyword .for => previous? == some (.keyword .end)
  | .leftParen => previous? == some (.keyword .assert)
  | _ => false

/-- `StandIns previous? tokens tokens' standIns`: the tokens `tokens'` are `tokens` with
unclassified ones in place of some of the marks, at their places; `standIns` are these.  The tokens
stand behind one of the kind `previous?`, or behind none. -/
inductive StandIns : Option TokenKind → List Token → List Token → List Token → Prop
  | nil {previous? : Option TokenKind} : StandIns previous? [] [] []
  | keep {previous? : Option TokenKind} {token : Token} {tokens tokens' standIns : List Token}
    (h : StandIns (some token.kind) tokens tokens' standIns) :
    StandIns previous? (token :: tokens) (token :: tokens') standIns
  | replace {previous? : Option TokenKind} {token standIn : Token}
    {tokens tokens' standIns : List Token} (hmark : token.kind.isMarkBehind previous? = true)
    (hkind : standIn.kind = .unknown) (hposition : standIn.position = token.position)
    (h : StandIns (some token.kind) tokens tokens' standIns) :
    StandIns previous? (token :: tokens) (standIn :: tokens') (standIn :: standIns)

theorem StandIns.kind_ne_eof {previous? : Option TokenKind} {tokens tokens' standIns : List Token}
    (h : StandIns previous? tokens tokens' standIns) (heof : ∀ token ∈ tokens, token.kind ≠ .eof) :
    ∀ token ∈ tokens', token.kind ≠ .eof := by
  induction h with
  | nil => exact heof
  | keep _ ih =>
    obtain ⟨hfirst, hrest⟩ := List.forall_mem_cons.1 heof
    exact List.forall_mem_cons.2 ⟨hfirst, ih hrest⟩
  | replace _ hkind _ _ ih =>
    obtain ⟨-, hrest⟩ := List.forall_mem_cons.1 heof
    exact List.forall_mem_cons.2 ⟨by rw [hkind]; decide, ih hrest⟩

/-- Whether a token of this kind leaves no doubt that a `:=`, `for` or `(` behind it is no mark. -/
def TokenKind.settles : TokenKind → Bool
  | .identifier | .keyword .end | .keyword .assert => false
  | _ => true

/-- Whether a token of this kind is no mark, behind any token or behind any that settles it. -/
def TokenKind.NoMark (settled : Bool) (kind : TokenKind) : Prop :=
  ∀ previous? : Option TokenKind, (settled = true → previous?.all settles = true) →
    kind.isMarkBehind previous? = false

/-- Where it is settled, the tokens that rules look at are no marks. -/
theorem TokenKind.noMark_of_settled {kind : TokenKind}
    (hkind : kind ∈ [.assign, .keyword .for, .leftParen]) : NoMark true kind := by
  intro previous? hsettled
  cases hmark : kind.isMarkBehind previous? with
  | false => rfl
  | true =>
    have hall := hsettled rfl
    simp only [List.mem_cons, List.not_mem_nil, or_false] at hkind
    rcases hkind with rfl | rfl | rfl <;>
      · obtain rfl := eq_of_beq hmark
        cases hall

theorem TokenKind.noMark_sign (settled : Bool) (op : BinaryOp) : NoMark settled op.sign := by
  intro previous? _
  cases op <;> rfl

namespace Parser

/-! ### Reading side by side -/

/-- `s.Twin total settled t`: the tokens of `t` are those of `s` with stand-ins, and `total` are the
reports made on `t` and those that its stand-ins will cost.  Where this is settled, the token in
front leaves no doubt about the marks. -/
structure State.Twin (s : State) (total : List Diagnostic) (settled : Bool) (t : State) :
    Prop where
  types : t.types = s.types
  tokens : ∃ previous? standIns, (settled = true → previous?.all TokenKind.settles = true) ∧
    StandIns previous? s.rest t.rest standIns ∧
    t.diagnostics ++ standIns.map Diagnostic.unclassified = total

namespace State.Twin

variable {s t : State} {total : List Diagnostic} {settled : Bool} {token : Token}
  {rest : List Token}

theorem loosen (h : s.Twin total settled t) : s.Twin total false t := by
  obtain ⟨previous?, standIns, -, hstandIns, htotal⟩ := h.tokens
  exact ⟨h.types, previous?, standIns, (absurd · Bool.false_ne_true), hstandIns, htotal⟩

/-- Behind the last token everything has been reported. -/
theorem of_nil (h : s.Twin total settled t) (hrest : s.rest = []) :
    t.rest = [] ∧ t.diagnostics = total := by
  obtain ⟨previous?, standIns, -, hstandIns, htotal⟩ := h.tokens
  rw [hrest] at hstandIns
  generalize htokens' : t.rest = tokens' at hstandIns
  cases hstandIns
  exact ⟨rfl, by rwa [List.map_nil, List.append_nil] at htotal⟩

/-- A token that is no mark is there in both texts. -/
theorem of_cons (h : s.Twin total settled t) (hrest : s.rest = token :: rest)
    (hmark : token.kind.NoMark settled) :
    ∃ rest', t.rest = token :: rest' ∧
      (s.skipTo rest).Twin total token.kind.settles (t.skipTo rest') := by
  obtain ⟨previous?, standIns, hsettled, hstandIns, htotal⟩ := h.tokens
  rw [hrest] at hstandIns
  generalize htokens' : t.rest = tokens' at hstandIns
  cases hstandIns with
  | @keep _ _ _ rest' _ hstandIns =>
    exact ⟨rest', rfl, h.types, some token.kind, standIns, id, hstandIns, htotal⟩
  | replace hmark' =>
    rw [hmark previous? hsettled] at hmark'
    cases hmark'

/-- A token is there in both texts, or it is a mark and there is a stand-in. -/
theorem cases_of_cons (h : s.Twin total settled t) (hrest : s.rest = token :: rest) :
    ∃ rest', (t.rest = token :: rest' ∧
        (s.skipTo rest).Twin total token.kind.settles (t.skipTo rest')) ∨
      ∃ standIn, t.rest = standIn :: rest' ∧ standIn.kind = .unknown ∧
        (∃ previous?, token.kind.isMarkBehind previous? = true) ∧
        (s.skipTo rest).Twin total token.kind.settles
          ((t.report (.unclassified standIn)).skipTo rest') := by
  obtain ⟨previous?, standIns, hsettled, hstandIns, htotal⟩ := h.tokens
  rw [hrest] at hstandIns
  generalize htokens' : t.rest = tokens' at hstandIns
  cases hstandIns with
  | @keep _ _ _ rest' _ hstandIns =>
    exact ⟨rest', .inl ⟨rfl, h.types, some token.kind, standIns, id, hstandIns, htotal⟩⟩
  | @replace _ _ standIn _ rest' standIns' hmark hkind _ hstandIns =>
    rw [List.map_cons, List.append_cons] at htotal
    exact ⟨rest', .inr ⟨standIn, rfl, hkind, ⟨previous?, hmark⟩, h.types, some token.kind,
      standIns', id, hstandIns, htotal⟩⟩

theorem advance (h : s.Twin total settled t) {kind : TokenKind} (hkind : s.current.kind = kind)
    (heof : kind ≠ .eof) (hmark : kind.NoMark settled) :
    t.current = s.current ∧ s.advance.Twin total kind.settles t.advance := by
  subst hkind
  obtain ⟨rest, hrest, hadvance⟩ := rest_eq_of_kind rfl heof
  obtain ⟨rest', hrest', htwin⟩ := h.of_cons hrest hmark
  rw [hadvance, advance_eq hrest']
  exact ⟨current_eq hrest', htwin⟩

/-- What rules look at without asking for it is in both texts, or in neither. -/
theorem kind_current_iff (h : s.Twin total settled t) {kind : TokenKind}
    (hunknown : kind ≠ .unknown) (hmark : kind.NoMark settled) :
    t.current.kind = kind ↔ s.current.kind = kind := by
  cases hrest : s.rest with
  | nil => rw [kind_current_of_nil hrest, kind_current_of_nil (h.of_nil hrest).1]
  | cons token rest =>
    rw [current_eq hrest]
    by_cases hkind : token.kind = kind
    · obtain ⟨rest', hrest', -⟩ := h.of_cons hrest (hkind ▸ hmark)
      rw [current_eq hrest']
    · obtain ⟨rest', ⟨hrest', -⟩ | ⟨standIn, hrest', hstandIn, -⟩⟩ := h.cases_of_cons hrest
      · rw [current_eq hrest']
      · rw [current_eq hrest', hstandIn]
        exact iff_of_false hunknown.symm hkind

end State.Twin

namespace Rule

/-! ### Rules that take stand-ins -/

/-- On a twin of a state, the rule reads what it reads from the state without a report, and leaves
twins behind. -/
def Tolerates {α : Type} (settled settled' : Bool) (rule : Rule α) (s : State) : Prop :=
  ∀ total t, s.Twin total settled t → ∀ value s', rule.Reads s value s' →
    ∃ t', rule.run t = .ok value t' ∧ s'.Twin total settled' t'

variable {α β : Type} {settled settled' settled'' : Bool} {rule : Rule α} {s : State}

theorem Tolerates.loosen (h : Tolerates settled settled' rule s) :
    Tolerates settled false rule s := by
  intro total t htwin value s' hreads
  obtain ⟨t', hrun, htwin'⟩ := h total t htwin value s' hreads
  exact ⟨t', hrun, htwin'.loosen⟩

theorem Tolerates.of_run_eq {rule' : Rule α} (h : Tolerates settled settled' rule' s)
    (hrun : ∀ t, rule.run t = rule'.run t) : Tolerates settled settled' rule s := by
  intro total t htwin value s' hreads
  rw [hrun t]
  exact h total t htwin value s' ((reads_congr (hrun s)).1 hreads)

theorem tolerates_pure (value : α) (s : State) : Tolerates settled settled (pure value) s := by
  intro total t htwin value' s' hreads
  obtain ⟨rfl, rfl⟩ := reads_pure_iff.1 hreads
  exact ⟨t, rfl, htwin⟩

theorem Tolerates.bind {next : α → Rule β} (h : Tolerates settled settled' rule s)
    (k : ∀ value t, s.Reaches t → Tolerates settled' settled'' (next value) t) :
    Tolerates settled settled'' (rule >>= next) s := by
  intro total t htwin value s' hreads
  obtain ⟨a, u, hrule, hnext⟩ := reads_bind_iff.1 hreads
  obtain ⟨t', hrun, htwin'⟩ := h total t htwin a u hrule
  obtain ⟨t'', hrun', htwin''⟩ :=
    k a u (reaches_of_run_ok hrule.1) total t' htwin' value s' hnext
  refine ⟨t'', ?_, htwin''⟩
  rw [run_bind, hrun]
  exact hrun'

/-- A token of which only the kind matters may be a stand-in. -/
theorem tolerates_expect_bind {kind : TokenKind} (hkind : kind ≠ .eof) {next : Rule β}
    (k : ∀ t, s.Reaches t → Tolerates kind.settles settled' next t) :
    Tolerates settled settled' (do let _ ← expect kind; next) s := by
  intro total t htwin value s' hreads
  obtain ⟨token, u, hexpect, hnext⟩ := reads_bind_iff.1 hreads
  have hreaches := reaches_of_run_ok hexpect.1
  obtain ⟨rest, hrest, rfl, rfl⟩ := (reads_expect_iff hkind).1 hexpect
  rw [run_bind, run_expect]
  obtain ⟨rest', ⟨hrest', htwin'⟩ | ⟨standIn, hrest', hstandIn, ⟨_, hmark⟩, htwin'⟩⟩ :=
    htwin.cases_of_cons hrest
  · rw [State.current_eq hrest', if_pos rfl, State.advance_eq hrest']
    exact k _ hreaches total _ htwin' value s' hnext
  · have hne : standIn.kind ≠ token.kind := by
      intro heq
      rw [← heq, hstandIn] at hmark
      cases hmark
    rw [State.current_eq hrest', if_neg hne, if_pos hstandIn,
      State.advance_eq (s := t.report _) hrest']
    exact k _ hreaches total _ htwin' value s' hnext

/-- A token that is no mark is taken on both sides. -/
theorem Tolerates.behind {next : Rule α} {kind : TokenKind} (hkind : s.current.kind = kind)
    (heof : kind ≠ .eof) (hmark : kind.NoMark settled)
    (hrun : ∀ t : State, t.current = s.current → rule.run t = next.run t.advance)
    (h : Tolerates kind.settles settled' next s.advance) : Tolerates settled settled' rule s := by
  intro total t htwin value s' ⟨hread, hdiag⟩
  obtain ⟨hcurrent, htwin'⟩ := htwin.advance hkind heof hmark
  rw [hrun s rfl] at hread
  rw [hrun t hcurrent]
  exact h total t.advance htwin' value s' ⟨hread, hdiag⟩

theorem tolerates_of_run_error {fault : Diagnostic} {u : State}
    (hrun : rule.run s = .error fault u) : Tolerates settled settled' rule s := by
  intro total t _ value s' ⟨hread, _⟩
  rw [hrun] at hread
  cases hread

/-- A name is never a mark. -/
theorem tolerates_expect_identifier (s : State) :
    Tolerates settled false (expect .identifier) s := by
  intro total t htwin token s' hreads
  obtain ⟨rest, hrest, hkind, rfl⟩ := (reads_expect_iff (by decide)).1 hreads
  obtain ⟨rest', hrest', htwin'⟩ := htwin.of_cons hrest (by rw [hkind]; exact fun _ _ => rfl)
  refine ⟨t.skipTo rest', ?_, htwin'.loosen⟩
  rw [run_expect, State.current_eq hrest', if_pos hkind, State.advance_eq hrest']

theorem tolerates_reference (token : Token) (s : State) :
    Tolerates settled settled (reference token) s := by
  intro total t htwin identifier s' hreads
  obtain ⟨rfl, rfl⟩ := reads_reference_iff.1 hreads
  refine ⟨t, ?_, htwin⟩
  rw [run_reference, State.reference, State.reference, htwin.types]

theorem tolerates_identifier (s : State) : Tolerates settled false identifier s :=
  (tolerates_expect_identifier s).bind fun token t _ => tolerates_reference token t

theorem tolerates_declare (name : String) (ty : ValueType) (s : State) :
    Tolerates settled settled (declare name ty) s := by
  intro total t htwin value s' hreads
  obtain rfl := reads_declare_iff.1 hreads
  refine ⟨t.declare name ty, rfl, ?_, htwin.tokens⟩
  show t.types.declare name ty = s.types.declare name ty
  rw [htwin.types]

/-! ### Expressions -/

theorem settles_sign (op : BinaryOp) : TokenKind.settles op.sign = true := by
  cases op <;> rfl

/-- An operator is there on both sides, or on neither. -/
theorem operator?_eq_none {total : List Diagnostic} {t : State} (h : s.Twin total settled t)
    {level : Level} (hop : level.operator? s.current.kind = none) :
    level.operator? t.current.kind = none := by
  cases hop' : level.operator? t.current.kind with
  | none => rfl
  | some op =>
    have hsign := (Level.sign_of_operator? hop').1
    have hne : op.sign ≠ .unknown := Grammar.sign_ne_of_isInner op rfl
    rw [(h.kind_current_iff hne (TokenKind.noMark_sign _ op)).1 hsign, ← hsign, hop'] at hop
    cases hop

theorem tolerates_chainFrom {level : Level} {left : Expr}
    (h : ∀ sign rest op, s.rest = sign :: rest → level.operator? sign.kind = some op →
      Tolerates true false (operand level) s.advance ∧
        ∀ right t, s.advance.Reaches t →
          Tolerates false false (chainFrom level (.binary op left right sign.position)) t) :
    Tolerates false false (chainFrom level left) s := by
  cases hop : level.operator? s.current.kind with
  | none =>
    intro total t htwin e s' hreads
    obtain ⟨rfl, rfl⟩ := reads_chainFrom_of_none hop hreads
    exact ⟨t, run_chainFrom_of_none (operator?_eq_none htwin hop), htwin⟩
  | some op =>
    have hsign := (Level.sign_of_operator? hop).1
    have heof : op.sign ≠ .eof := Grammar.sign_ne_of_isInner op rfl
    obtain ⟨rest, hrest, -⟩ := State.rest_eq_of_kind hsign heof
    obtain ⟨hoperand, hmore⟩ := h _ rest op hrest hop
    refine .behind hsign heof (TokenKind.noMark_sign _ op) (fun t ht => ?_)
      ((settles_sign op).symm ▸ hoperand.bind hmore)
    rw [run_chainFrom, ht, hop]

theorem tolerates_factor
    (hparen : ∀ token rest, s.rest = token :: rest → token.kind = .leftParen →
      Tolerates true false (chain .loose) s.advance)
    (hnot : ∀ token rest, s.rest = token :: rest → token.kind = .not →
      Tolerates true false factor s.advance) :
    Tolerates true false factor s := by
  cases hkind : s.current.kind with
  | intLiteral =>
    cases hread : Text.Decimal.read? s.current.lexeme with
    | some n =>
      refine .behind hkind (by decide) (fun _ _ => rfl) (fun t ht => ?_)
        (tolerates_pure (.int n) _).loosen
      simp only [run_factor, ht, hkind, hread, run_pure]
    | none =>
      have hrun : factor.run s =
          .error (.of (.literalOutOfRange s.current.lexeme) s.current.position) s := by
        simp only [run_factor, hkind, hread]
      exact tolerates_of_run_error hrun
  | stringLiteral =>
    refine .behind hkind (by decide) (fun _ _ => rfl) (fun t ht => ?_)
      (tolerates_pure (.string s.current.lexeme) _).loosen
    simp only [run_factor, ht, hkind, run_pure]
  | boolLiteral =>
    refine .behind hkind (by decide) (fun _ _ => rfl) (fun t ht => ?_)
      (tolerates_pure (.bool (s.current.lexeme == "true")) _).loosen
    simp only [run_factor, ht, hkind, run_pure]
  | identifier =>
    refine .behind hkind (by decide) (fun _ _ => rfl) (fun t ht => ?_)
      ((tolerates_reference s.current _).bind fun i u _ => tolerates_pure (Expr.var i) u)
    simp only [run_factor, ht, hkind]
    rfl
  | leftParen =>
    obtain ⟨rest, hrest, -⟩ := State.rest_eq_of_kind hkind (by decide)
    have hinner : Tolerates true false expr s.advance := hparen _ rest hrest hkind
    have hclosed : Tolerates true false
        (do let e ← expr; let _ ← expect .rightParen; return e) s.advance :=
      hinner.bind fun e u _ => tolerates_expect_bind (by decide) fun v _ =>
        (tolerates_pure e v).loosen
    refine .behind hkind (by decide) (TokenKind.noMark_of_settled (by decide)) (fun t ht => ?_)
      hclosed
    simp only [run_factor, ht, hkind]
  | not =>
    obtain ⟨rest, hrest, -⟩ := State.rest_eq_of_kind hkind (by decide)
    refine .behind hkind (by decide) (fun _ _ => rfl) (fun t ht => ?_)
      ((hnot _ rest hrest hkind).bind fun e u _ => tolerates_pure (Expr.not e s.current.position) u)
    simp only [run_factor, ht, hkind]
  | _ =>
    have hrun : factor.run s = .error (.unexpected .operand s.current) s := by
      simp only [run_factor, hkind]
    exact tolerates_of_run_error hrun

theorem tolerates_expr (s : State) : Tolerates true false expr s := by
  refine (expr_induction (fun level s => Tolerates true false (chain level) s)
    (fun level s => Tolerates true false (operand level) s)
    (fun level left s => Tolerates false false (chainFrom level left) s)
    (fun s => Tolerates true false factor s) ?chain ?loop ?loose ?tight ?factor).1 .loose s
  case chain =>
    exact fun level s hoperand hloop => (hoperand.bind hloop).of_run_eq (run_chain level)
  case loop => exact fun level left s h => tolerates_chainFrom h
  case loose => exact fun s h => h.of_run_eq run_operand_loose
  case tight => exact fun s h => h.of_run_eq run_operand_tight
  case factor => exact fun s => tolerates_factor

/-! ### Statements without a body -/

theorem tolerates_typeName (s : State) : Tolerates settled true typeName s := by
  intro total t htwin ty s' hreads
  obtain ⟨name, rest, hrest, hkind, rfl⟩ := reads_typeName_iff.1 hreads
  have hmark : TokenKind.NoMark settled name.kind := by
    rw [hkind]
    cases ty <;> exact fun _ _ => rfl
  have hsettles : name.kind.settles = true := by
    rw [hkind]
    cases ty <;> rfl
  obtain ⟨rest', hrest', htwin'⟩ := htwin.of_cons hrest hmark
  rw [hsettles] at htwin'
  exact ⟨_, (reads_typeName_iff.2 ⟨name, rest', hrest', hkind, rfl⟩).1, htwin'⟩

/-- Behind the name of a type, `:=` is no mark. -/
theorem tolerates_initializer (s : State) : Tolerates true false initializer s := by
  have hmark : TokenKind.NoMark true .assign := TokenKind.noMark_of_settled (by decide)
  by_cases hkind : s.current.kind = .assign
  · refine .behind hkind (by decide) hmark (fun t ht => ?_)
      ((tolerates_expr s.advance).bind fun e u _ => tolerates_pure (some e) u)
    rw [run_initializer, ht, if_pos hkind]
  · intro total t htwin value s' hreads
    have hrun : ∀ u : State, u.current.kind ≠ .assign → initializer.run u = .ok none u := by
      intro u hu
      rw [run_initializer, if_neg hu]
    have hread := hreads.1
    rw [hrun s hkind] at hread
    cases hread
    have hkind' : t.current.kind ≠ .assign :=
      fun h => hkind ((htwin.kind_current_iff (by decide) hmark).1 h)
    exact ⟨t, hrun t hkind', htwin.loosen⟩

theorem tolerates_declaration (s : State) : Tolerates settled false declaration s := by
  refine (tolerates_expect_identifier s).bind fun name t _ => ?_
  refine tolerates_expect_bind (by decide) fun u _ => ?_
  refine (tolerates_typeName u).bind fun ty v _ => ?_
  refine (tolerates_declare name.lexeme ty v).bind fun _ w _ => ?_
  exact (tolerates_initializer w).bind fun value x _ => tolerates_pure _ x

theorem tolerates_assignment (target : Token) (s : State) :
    Tolerates settled false (assignment target) s := by
  refine (tolerates_reference target s).bind fun i t _ => ?_
  refine tolerates_expect_bind (by decide) fun u _ => ?_
  exact (tolerates_expr u).bind fun e v _ => tolerates_pure _ v

theorem tolerates_print (keyword : Token) (s : State) : Tolerates true false (print keyword) s :=
  (tolerates_expr s).bind fun _ t _ => tolerates_pure _ t

theorem tolerates_read (s : State) : Tolerates settled false read s :=
  (tolerates_identifier s).bind fun _ t _ => tolerates_pure _ t

theorem tolerates_assertion (keyword : Token) (s : State) :
    Tolerates settled false (assertion keyword) s := by
  refine tolerates_expect_bind (by decide) fun t _ => ?_
  refine (tolerates_expr t).bind fun e u _ => ?_
  exact tolerates_expect_bind (by decide) fun v _ => (tolerates_pure _ v).loosen

/-! ### Loops and blocks -/

theorem tolerates_loopHeader (s : State) : Tolerates settled true loopHeader s := by
  refine (tolerates_identifier s).bind fun counter t _ => ?_
  refine tolerates_expect_bind (by decide) fun u _ => ?_
  refine (tolerates_expr u).bind fun start v _ => ?_
  refine tolerates_expect_bind (by decide) fun w _ => ?_
  refine (tolerates_expr w).bind fun stop x _ => ?_
  exact tolerates_expect_bind (by decide) fun y _ => tolerates_pure _ y

theorem tolerates_loopEnd (s : State) : Tolerates settled true loopEnd s := by
  refine tolerates_expect_bind (by decide) fun t _ => ?_
  exact tolerates_expect_bind (by decide) fun u _ => tolerates_pure () u

end Rule

/-- On a twin of a state from which a block is read without a report, the same block is read, and
twins are left behind. -/
def ToleratesBlock (inLoop : Bool) (s : State) : Prop :=
  ∀ total t, s.Twin total true t → (blockRun inLoop s).2.diagnostics = s.diagnostics →
    ∃ t', blockRun inLoop t = ((blockRun inLoop s).1, t') ∧
      (blockRun inLoop s).2.Twin total true t'

section
variable {s : State}

theorem tolerates_loop (hbody : ∀ t, s.Reaches t → ToleratesBlock true t) :
    Rule.Tolerates true false Rule.loop s := by
  intro total t htwin v s' hreads
  obtain ⟨header, u, hheader, hbody', hend, rfl⟩ := reads_loop hreads
  obtain ⟨u', hrun, htwin₁⟩ := Rule.tolerates_loopHeader s total t htwin header u hheader
  obtain ⟨w', hblock, htwin₂⟩ :=
    hbody u (Rule.reaches_of_run_ok hheader.1) total u' htwin₁ hbody'
  obtain ⟨t', hrun', htwin₃⟩ := Rule.tolerates_loopEnd _ total w' htwin₂ () s' hend
  refine ⟨t', ?_, htwin₃.loosen⟩
  rw [Rule.run_loop, hrun]
  dsimp only
  rw [hblock]
  dsimp only
  rw [hrun']

theorem tolerates_statement (form : StatementForm) (first : Token)
    (hbody : ∀ t, s.Reaches t → ToleratesBlock true t) :
    Rule.Tolerates (TokenKind.settles form.kind) true (Rule.statement form first) s := by
  have hrule : Rule.Tolerates (TokenKind.settles form.kind) false (form.rule first) s := by
    cases form with
    | declaration => exact Rule.tolerates_declaration s
    | assignment => exact Rule.tolerates_assignment first s
    | loop => exact tolerates_loop hbody
    | print => exact Rule.tolerates_print first s
    | read => exact Rule.tolerates_read s
    | assertion => exact Rule.tolerates_assertion first s
  refine Rule.Tolerates.of_run_eq (hrule.bind fun v t _ => ?_) (Rule.run_statement form first)
  exact Rule.tolerates_expect_bind (by decide) fun u _ => Rule.tolerates_pure v u

/-- The token that starts a statement is no mark where one may stand. -/
theorem noMark_form (form : StatementForm) : TokenKind.NoMark true form.kind := by
  cases form with
  | loop => exact TokenKind.noMark_of_settled (by decide)
  | _ => exact fun _ _ => rfl

end

/-- A block that is read without a report is read with stand-ins, too. -/
theorem toleratesBlock (inLoop : Bool) (s : State) : ToleratesBlock inLoop s := by
  intro total t htwin hclean
  cases hrest : s.rest with
  | nil =>
    rw [blockRun_of_nil hrest]
    exact ⟨t, blockRun_of_nil (htwin.of_nil hrest).1, htwin⟩
  | cons token rest =>
    rcases blockRun_clean_cons hrest hclean with
      ⟨rfl, hend, hrun⟩ | ⟨form, v, u, hform, hreads, hrun, hclean'⟩
    · obtain ⟨rest', hrest', -⟩ := htwin.of_cons hrest (by rw [hend]; exact fun _ _ => rfl)
      rw [hrun]
      exact ⟨t, blockRun_of_end hrest' hend, htwin⟩
    · obtain ⟨rest', hrest', htwin₁⟩ := htwin.of_cons hrest (hform ▸ noMark_form form)
      have hbody : ∀ w, (s.skipTo rest).Reaches w → ToleratesBlock true w := fun w hw =>
        have : w.rest.length < s.rest.length := by
          rw [hrest, List.length_cons]
          exact Nat.lt_succ_of_le hw.length_le
        toleratesBlock true w
      rw [hform] at htwin₁
      obtain ⟨u', hread, htwin₂⟩ :=
        tolerates_statement form token hbody total _ htwin₁ v u hreads
      have : u.rest.length < s.rest.length := by
        rw [hrest, List.length_cons]
        exact Nat.lt_succ_of_le (Rule.reaches_of_run_ok hreads.1).length_le
      obtain ⟨t', hblock, htwin₃⟩ := toleratesBlock inLoop u total u' htwin₂ hclean'
      rw [hrun, blockRun_of_form hrest' hform, hread]
      dsimp only
      rw [hblock]
      exact ⟨t', rfl, htwin₃⟩
termination_by s.rest.length

/-! ### Texts -/

/-- In a clean text, unclassified tokens may stand in for any of the marks that the grammar asks
for: the program is the same, with its places and tags, and the stand-ins are reported one by one,
in the order of the text, and nothing else is. -/
theorem parse_with_standIns (text : String) (known : TypeTable) (tokens standIns : List Token)
    (hclean : (parseText text known).isClean = true)
    (h : StandIns none (tokenize text) tokens standIns) :
    (parse tokens known).program = (parseText text known).program ∧
      (parse tokens known).diagnostics = standIns.map Diagnostic.unclassified ∧
      ∀ fault ∈ (parse tokens known).diagnostics, fault.kind = .lexicalError := by
  have hparse : parse tokens known = parseTokens tokens known :=
    congrArg (parseTokens · known) (TokenStream.drain_list _)
  rw [parseText_eq] at hclean
  rw [hparse, parseText_eq]
  have hquiet : (blockRun false (.initial known (tokenize text))).2.diagnostics = [] :=
    List.isEmpty_iff.1 hclean
  have htwin : (State.initial known (tokenize text)).Twin (standIns.map Diagnostic.unclassified)
      true (.initial known tokens) := by
    refine ⟨rfl, none, standIns, fun _ => rfl, ?_, List.nil_append _⟩
    rw [State.rest_initial_tokenize,
      State.rest_initial (h.kind_ne_eof fun _ => Lexer.kind_ne_eof_of_mem_tokenize)]
    exact h
  obtain ⟨t, hrun, htwin'⟩ := toleratesBlock false _ _ _ htwin hquiet
  obtain ⟨-, -, -, hend⟩ :=
    isBlock_of_blockRun false _ (State.numerals_initial known text) hquiet
  have hreports : (parseTokens tokens known).diagnostics = standIns.map Diagnostic.unclassified :=
    (congrArg (fun run => run.2.diagnostics) hrun).trans
      (htwin'.of_nil (hend.resolve_right Bool.false_ne_true)).2
  refine ⟨congrArg (fun run => Program.mk run.1) hrun, hreports, fun fault hmem => ?_⟩
  rw [hreports] at hmem
  obtain ⟨standIn, -, rfl⟩ := List.mem_map.1 hmem
  rfl

/-- A loop with an unclassified token for each of its marks, two of them next to each other. -/
theorem parse_loop_of_standIns :
    let text := "for i in 1..2 do end for;"
    let stray : Nat → Token := fun column => ⟨.unknown, "?", ⟨1, column⟩⟩
    let standIns := [7, 11, 15, 22, 25].map stray
    let tokens : List Token :=
      [⟨.keyword .for, "for", ⟨1, 1⟩⟩, ⟨.identifier, "i", ⟨1, 5⟩⟩, stray 7,
        ⟨.intLiteral, "1", ⟨1, 10⟩⟩, stray 11, ⟨.intLiteral, "2", ⟨1, 13⟩⟩, stray 15,
        ⟨.keyword .end, "end", ⟨1, 18⟩⟩, stray 22, stray 25]
    (parseText text).isClean = true ∧ StandIns none (tokenize text) tokens standIns ∧
      (parse tokens).program = (parseText text).program ∧
      (parse tokens).diagnostics = standIns.map Diagnostic.unclassified ∧
      ∀ fault ∈ (parse tokens).diagnostics, fault.kind = .lexicalError := by
  intro text stray standIns tokens
  have hclean : (parseText text).isClean = true := by decide +kernel
  have htokens : tokenize text =
      [⟨.keyword .for, "for", ⟨1, 1⟩⟩, ⟨.identifier, "i", ⟨1, 5⟩⟩, ⟨.keyword .in, "in", ⟨1, 7⟩⟩,
        ⟨.intLiteral, "1", ⟨1, 10⟩⟩, ⟨.range, "..", ⟨1, 11⟩⟩, ⟨.intLiteral, "2", ⟨1, 13⟩⟩,
        ⟨.keyword .do, "do", ⟨1, 15⟩⟩, ⟨.keyword .end, "end", ⟨1, 18⟩⟩,
        ⟨.keyword .for, "for", ⟨1, 22⟩⟩, ⟨.semicolon, ";", ⟨1, 25⟩⟩] := by decide +kernel
  have hstandIns : StandIns none (tokenize text) tokens standIns := by
    rw [htokens]
    exact .keep (.keep (.replace rfl rfl rfl (.keep (.replace rfl rfl rfl (.keep
      (.replace rfl rfl rfl (.keep (.replace rfl rfl rfl (.replace rfl rfl rfl .nil)))))))))
  exact ⟨hclean, hstandIns, parse_with_standIns text .empty tokens standIns hclean hstandIns⟩

end Parser

end MiniPL
