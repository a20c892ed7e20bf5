import Mathlib.Data.List.Forall2
import MiniPL.Proofs.Sentences

/-!
# Recovery from faulty statements

Among the statements of the grammar a text may hold broken items: tokens that are no statement,
through the first `;` behind them.  Each of them is left out and reported once, at one of its own
tokens, and everything around it is read as if it were not there.

The rules of an item without a loop never pass its `;` (`Rule.Keeps`), except for the `;` that ends
a statement; so resuming behind the next `;` is resuming behind the item.

Main statement: `parseText_of_isNest`.
-/

namespace MiniPL

namespace Grammar

/-! ### Texts with broken items -/

/-- The kinds of tokens that start something else than a broken item. -/
def barredFirst : List TokenKind :=
  [.keyword .for, .keyword .end, .keyword .in, .keyword .do, .keyword .int, .keyword .string,
    .keyword .bool]

/-- `IsBroken item`: the tokens are no statement, and end with their first `;`. -/
inductive IsBroken : List Token → Prop
  | mk {body : List Token} {semicolon : Token}
    (hbody : ∀ token ∈ body, token.kind ≠ .semicolon ∧ token.kind ≠ .unknown ∧ token.kind ≠ .eof)
    (hfirst : ∀ first, body.head? = some first → first.kind ∉ barredFirst)
    (hsemicolon : semicolon.kind = .semicolon)
    (hbroken : ∀ types v types', ¬ IsStatement types (body ++ [semicolon]) v types') :
    IsBroken (body ++ [semicolon])

/-- `IsNest tokens block items`: the tokens are the statements of the block, with broken items
between them at every level of nesting. -/
inductive IsNest : List Token → Block → List (List Token) → Prop
  | nil : IsNest [] [] []
  | simple {types types' : TypeTable} {tokens rest : List Token} {statement : Statement}
    {block : Block} {items : List (List Token)} (h : IsSimple types tokens statement types')
    (hrest : IsNest rest block items) : IsNest (tokens ++ rest) (statement :: block) items
  | loop {types : TypeTable} {«for» : Token} {header inner ending rest : List Token}
    {counter : Identifier} {start stop : Expr} {body block : Block}
    {items items' : List (List Token)} (hfor : «for».kind = .keyword .for)
    (hheader : IsHeader types header counter start stop) (hbody : IsNest inner body items)
    (hend : IsEnd ending) (hrest : IsNest rest block items') :
    IsNest («for» :: header ++ inner ++ ending ++ rest) (.loop counter start stop body :: block)
      (items ++ items')
  | broken {item rest : List Token} {block : Block} {items : List (List Token)}
    (hitem : IsBroken item) (hrest : IsNest rest block items) :
    IsNest (item ++ rest) block (item :: items)

/-- A syntax error at one of the tokens. -/
def IsFaultOf (item : List Token) (fault : Diagnostic) : Prop :=
  fault.kind = .syntaxError ∧ ∃ token ∈ item, fault.position = token.position

end Grammar

namespace Parser

open Grammar

/-! ### Staying inside an item -/

namespace State

/-- The state stands inside an item: in front of tokens that can neither end it nor stand in for
others, and behind them its `;`. -/
structure AtItem (s : State) (body : List Token) (semicolon : Token) (rest : List Token) :
    Prop where
  rest_eq : s.rest = body ++ semicolon :: rest
  plain : ∀ token ∈ body, token.kind ≠ .semicolon ∧ token.kind ≠ .unknown
  kind_semicolon : semicolon.kind = .semicolon

variable {s t u : State}

theorem AtItem.current_mem {body rest : List Token} {semicolon : Token}
    (h : s.AtItem body semicolon rest) : s.current ∈ body ++ [semicolon] := by
  unfold current
  rw [h.rest_eq]
  cases body with
  | nil => exact List.mem_singleton_self _
  | cons token body => exact List.mem_cons_self

theorem AtItem.current_ne_unknown {body rest : List Token} {semicolon : Token}
    (h : s.AtItem body semicolon rest) : s.current.kind ≠ .unknown := by
  rcases List.mem_append.1 h.current_mem with hmem | hmem
  · exact (h.plain _ hmem).2
  · rw [List.mem_singleton.1 hmem, h.kind_semicolon]
    decide

/-- From inside any item, the second state is inside the same item, with nothing reported. -/
def StaysIn (s t : State) : Prop :=
  ∀ body semicolon rest, s.AtItem body semicolon rest →
    t.diagnostics = s.diagnostics ∧ ∃ body', body' <:+ body ∧ t.AtItem body' semicolon rest

theorem StaysIn.refl (s : State) : s.StaysIn s :=
  fun body _ _ h => ⟨rfl, body, List.suffix_refl _, h⟩

theorem StaysIn.trans (h : s.StaysIn t) (k : t.StaysIn u) : s.StaysIn u := by
  intro body semicolon rest hs
  obtain ⟨hdiag, body', hsuffix, ht⟩ := h body semicolon rest hs
  obtain ⟨hdiag', body'', hsuffix', hu⟩ := k body' semicolon rest ht
  exact ⟨hdiag'.trans hdiag, body'', hsuffix'.trans hsuffix, hu⟩

/-- A token other than `;` is not the last of its item. -/
theorem staysIn_advance (h : s.current.kind ≠ .semicolon) : s.StaysIn s.advance := by
  intro body semicolon rest hs
  cases body with
  | nil => exact absurd (current_eq hs.rest_eq ▸ hs.kind_semicolon) h
  | cons token body =>
    rw [advance_eq hs.rest_eq]
    exact ⟨rfl, body, List.suffix_cons _ _, rfl,
      fun token' hmem => hs.plain token' (List.mem_cons_of_mem _ hmem), hs.kind_semicolon⟩

/-- From inside any item, the fault points into it. -/
def Blames (s : State) (fault : Diagnostic) : Prop :=
  ∀ body semicolon rest, s.AtItem body semicolon rest → IsFaultOf (body ++ [semicolon]) fault

theorem Blames.of_staysIn {fault : Diagnostic} (h : s.StaysIn t) (k : t.Blames fault) :
    s.Blames fault := by
  intro body semicolon rest hs
  obtain ⟨-, body', hsuffix, ht⟩ := h body semicolon rest hs
  obtain ⟨hkind, token, hmem, hposition⟩ := k body' semicolon rest ht
  refine ⟨hkind, token, ?_, hposition⟩
  rcases List.mem_append.1 hmem with hmem | hmem
  · exact List.mem_append_left _ (hsuffix.mem hmem)
  · exact List.mem_append_right _ hmem

theorem blames_current {fault : Diagnostic} (hkind : fault.kind = .syntaxError)
    (hposition : fault.position = s.current.position) : s.Blames fault :=
  fun _ _ _ hs => ⟨hkind, s.current, hs.current_mem, hposition⟩

end State

namespace Rule

variable {α β : Type} {s t : State}

/-- The rule does not leave the item that it starts in, and its faults point into it. -/
def Keeps (rule : Rule α) (s : State) : Prop :=
  match rule.run s with
  | .ok _ t => s.StaysIn t
  | .error fault t => s.StaysIn t ∧ s.Blames fault

theorem keeps_of_run_ok {rule : Rule α} {value : α} (hrun : rule.run s = .ok value t)
    (h : s.StaysIn t) : rule.Keeps s := by
  unfold Keeps
  rw [hrun]
  exact h

theorem keeps_of_run_error {rule : Rule α} {fault : Diagnostic}
    (hrun : rule.run s = .error fault s) (h : s.Blames fault) : rule.Keeps s := by
  unfold Keeps
  rw [hrun]
  exact ⟨.refl s, h⟩

/-- A rule may first take some tokens of the item. -/
theorem Keeps.of_staysIn {rule rule' : Rule α} (hrun : rule.run s = rule'.run t)
    (h : s.StaysIn t) (k : rule'.Keeps t) : rule.Keeps s := by
  unfold Keeps at k ⊢
  rw [hrun]
  cases hrule : rule'.run t with
  | ok value u =>
    rw [hrule] at k
    exact h.trans k
  | error fault u =>
    rw [hrule] at k
    exact ⟨h.trans k.1, k.2.of_staysIn h⟩

theorem keeps_pure (value : α) (s : State) : (pure value : Rule α).Keeps s :=
  keeps_of_run_ok rfl (.refl s)

theorem Keeps.bind {rule : Rule α} {next : α → Rule β} (h : rule.Keeps s)
    (k : ∀ value t, s.Reaches t → (next value).Keeps t) : (rule >>= next).Keeps s := by
  unfold Keeps at h
  cases hrule : rule.run s with
  | ok value t =>
    rw [hrule] at h
    have hrun : (rule >>= next).run s = (next value).run t := by rw [run_bind, hrule]
    exact .of_staysIn hrun h (k value t (reaches_of_run_ok hrule))
  | error fault t =>
    rw [hrule] at h
    have hrun : (rule >>= next).run s = .error fault t := by rw [run_bind, hrule]
    unfold Keeps
    rw [hrun]
    exact h

theorem keeps_expect {kind : TokenKind} (hkind : kind ≠ .semicolon) (s : State) :
    (expect kind).Keeps s := by
  have hrun := run_expect kind s
  by_cases hcurrent : s.current.kind = kind
  · rw [if_pos hcurrent] at hrun
    exact keeps_of_run_ok hrun (State.staysIn_advance (hcurrent ▸ hkind))
  rw [if_neg hcurrent] at hrun
  by_cases hunknown : s.current.kind = .unknown
  · rw [if_pos hunknown] at hrun
    exact keeps_of_run_ok hrun fun _ _ _ hs => absurd hunknown hs.current_ne_unknown
  · rw [if_neg hunknown] at hrun
    exact keeps_of_run_error hrun (State.blames_current rfl rfl)

/-! ### Expressions stay inside -/

theorem keeps_of_run_advance {rule rule' : Rule α} (hrun : rule.run s = rule'.run s.advance)
    (h : s.current.kind ≠ .semicolon) (k : rule'.Keeps s.advance) : rule.Keeps s :=
  .of_staysIn hrun (State.staysIn_advance h) k

/-- A rule that takes the current token alone keeps to the item. -/
theorem keeps_of_run_ok_advance {rule : Rule α} {value : α}
    (hrun : rule.run s = .ok value s.advance) (h : s.current.kind ≠ .semicolon) : rule.Keeps s :=
  keeps_of_run_ok hrun (State.staysIn_advance h)

theorem keeps_chainFrom {level : Level} {left : Expr}
    (h : ∀ sign rest op, s.rest = sign :: rest → level.operator? sign.kind = some op →
      (operand level).Keeps s.advance ∧ ∀ right t, s.advance.Reaches t →
        (chainFrom level (.binary op left right sign.position)).Keeps t) :
    (chainFrom level left).Keeps s := by
  have hrun := run_chainFrom level left s
  cases hop : level.operator? s.current.kind with
  | none =>
    rw [hop] at hrun
    exact keeps_of_run_ok hrun (.refl s)
  | some op =>
    rw [hop] at hrun
    have hsemicolon : s.current.kind ≠ .semicolon := by
      intro hkind
      rw [hkind] at hop
      cases level <;> cases hop
    cases hrest : s.rest with
    | nil =>
      rw [State.kind_current_of_nil hrest] at hop
      cases level <;> cases hop
    | cons sign rest =>
      rw [State.current_eq hrest] at hop hrun
      obtain ⟨hoperand, hmore⟩ := h sign rest op hrest hop
      exact keeps_of_run_advance hrun hsemicolon (hoperand.bind hmore)

theorem keeps_factor
    (hparen : ∀ token rest, s.rest = token :: rest → token.kind = .leftParen →
      (chain .loose).Keeps s.advance)
    (hnot : ∀ token rest, s.rest = token :: rest → token.kind = .not → factor.Keeps s.advance) :
    factor.Keeps s := by
  have hrun := run_factor s
  split at hrun
  · rename_i hkind
    split at hrun
    · exact keeps_of_run_ok_advance hrun (by rw [hkind]; decide)
    · exact keeps_of_run_error hrun (State.blames_current rfl rfl)
  · rename_i hkind
    exact keeps_of_run_ok_advance hrun (by rw [hkind]; decide)
  · rename_i hkind
    exact keeps_of_run_ok_advance hrun (by rw [hkind]; decide)
  · rename_i hkind
    exact keeps_of_run_ok_advance hrun (by rw [hkind]; decide)
  · rename_i hkind
    obtain ⟨rest, hrest, -⟩ := State.rest_eq_of_kind hkind (by decide)
    have hinner : expr.Keeps s.advance := hparen _ _ hrest hkind
    refine keeps_of_run_advance hrun (by rw [hkind]; decide) (hinner.bind fun inner t _ => ?_)
    exact (keeps_expect (by decide) t).bind fun _ u _ => keeps_pure inner u
  · rename_i hkind
    obtain ⟨rest, hrest, -⟩ := State.rest_eq_of_kind hkind (by decide)
    refine keeps_of_run_advance hrun (by rw [hkind]; decide) ?_
    exact (hnot _ _ hrest hkind).bind fun operand t _ => keeps_pure _ t
  · exact keeps_of_run_error hrun (State.blames_current rfl rfl)

theorem keeps_expr (s : State) : expr.Keeps s := by
  refine (expr_induction (fun level s => (chain level).Keeps s)
    (fun level s => (operand level).Keeps s) (fun level left s => (chainFrom level left).Keeps s)
    (fun s => factor.Keeps s) ?chain ?loop ?loose ?tight ?factor).1 .loose s
  case chain =>
    intro level s hoperand hloop
    exact .of_staysIn (run_chain level s) (.refl s) (hoperand.bind hloop)
  case loop => exact fun level left s => keeps_chainFrom
  case loose => exact fun s h => .of_staysIn (run_operand_loose s) (.refl s) h
  case tight => exact fun s h => .of_staysIn (run_operand_tight s) (.refl s) h
  case factor => exact fun s => keeps_factor

/-! ### Statements without a body stay inside -/

theorem keeps_identifier (s : State) : Rule.identifier.Keeps s :=
  (keeps_expect (by decide) s).bind fun _ t _ => keeps_of_run_ok (run_reference _ t) (.refl t)

theorem keeps_typeName (s : State) : typeName.Keeps s := by
  have hrun := run_typeName s
  split at hrun
  · rename_i hkind
    exact keeps_of_run_ok_advance hrun (by rw [hkind]; decide)
  · rename_i hkind
    exact keeps_of_run_ok_advance hrun (by rw [hkind]; decide)
  · rename_i hkind
    exact keeps_of_run_ok_advance hrun (by rw [hkind]; decide)
  · exact keeps_of_run_error hrun (State.blames_current rfl rfl)

theorem keeps_initializer (s : State) : initializer.Keeps s := by
  have hrun := run_initializer s
  by_cases hkind : s.current.kind = .assign
  · rw [if_pos hkind] at hrun
    refine keeps_of_run_advance hrun (by rw [hkind]; decide) ?_
    exact (keeps_expr _).bind fun e t _ => keeps_pure (some e) t
  · rw [if_neg hkind] at hrun
    exact keeps_of_run_ok hrun (.refl s)

theorem keeps_declaration (s : State) : declaration.Keeps s := by
  refine (keeps_expect (by decide) s).bind fun name t _ => ?_
  refine (keeps_expect (by decide) t).bind fun _ u _ => ?_
  refine (keeps_typeName u).bind fun ty v _ => ?_
  have hdeclare : v.StaysIn (v.declare name.lexeme ty) := fun body _ _ hv =>
    ⟨rfl, body, List.suffix_refl _, hv.rest_eq, hv.plain, hv.kind_semicolon⟩
  refine Keeps.bind (keeps_of_run_ok (run_declare name.lexeme ty v) hdeclare) fun _ w _ => ?_
  exact (keeps_initializer w).bind fun value x _ => keeps_pure _ x

theorem keeps_assignment (target : Token) (s : State) : (assignment target).Keeps s := by
  refine Keeps.bind (keeps_of_run_ok (run_reference target s) (.refl s)) fun _ t _ => ?_
  refine (keeps_expect (by decide) t).bind fun _ u _ => ?_
  exact (keeps_expr u).bind fun e v _ => keeps_pure _ v

theorem keeps_assertion (keyword : Token) (s : State) : (assertion keyword).Keeps s := by
  refine (keeps_expect (by decide) s).bind fun _ t _ => ?_
  refine (keeps_expr t).bind fun condition u _ => ?_
  exact (keeps_expect (by decide) u).bind fun _ v _ => keeps_pure _ v

theorem keeps_rule {form : StatementForm} (hform : form ≠ .loop) (first : Token) (s : State) :
    (form.rule first).Keeps s := by
  cases form with
  | loop => exact absurd rfl hform
  | declaration => exact keeps_declaration s
  | assignment => exact keeps_assignment first s
  | print => exact (keeps_expr s).bind fun e t _ => keeps_pure _ t
  | read => exact (keeps_identifier s).bind fun identifier t _ => keeps_pure _ t
  | assertion => exact keeps_assertion first s

end Rule

/-! ### Broken items are left out -/

theorem behindSemicolon_append {body rest : List Token} {semicolon : Token}
    (hbody : ∀ token ∈ body, token.kind ≠ .semicolon) (h : semicolon.kind = .semicolon) :
    behindSemicolon (body ++ semicolon :: rest) = rest := by
  induction body with
  | nil => exact if_pos h
  | cons token body ih =>
    rw [List.cons_append, behindSemicolon, if_neg (hbody token List.mem_cons_self)]
    exact ih fun token' hmem => hbody token' (List.mem_cons_of_mem _ hmem)

/-- Resuming behind the next `;` is resuming behind the item. -/
theorem State.AtItem.rest_synchronize {s : State} {body rest : List Token} {semicolon : Token}
    (h : s.AtItem body semicolon rest) : s.synchronize.rest = rest := by
  show behindSemicolon s.rest = rest
  rw [h.rest_eq]
  exact behindSemicolon_append (fun token hmem => (h.plain token hmem).1) h.kind_semicolon

/-- The first `;` of an item is its last token. -/
theorem State.AtItem.rest_advance {s : State} {body rest : List Token} {semicolon : Token}
    (h : s.AtItem body semicolon rest) (hcurrent : s.current.kind = .semicolon) :
    s.advance.rest = rest := by
  cases body with
  | nil =>
    rw [State.advance_eq h.rest_eq]
    rfl
  | cons token body =>
    rw [State.current_eq h.rest_eq] at hcurrent
    exact absurd hcurrent (h.plain token List.mem_cons_self).1

/-- A statement without a body either passes the `;` of its item, or fails inside the item. -/
theorem Rule.run_statement_of_atItem {form : StatementForm} (hform : form ≠ .loop) (first : Token)
    {s : State} {body rest : List Token} {semicolon : Token} (hs : s.AtItem body semicolon rest) :
    match (statement form first).run s with
    | .ok _ t => t.diagnostics = s.diagnostics ∧ t.rest = rest
    | .error fault t => t.diagnostics = s.diagnostics ∧ t.synchronize.rest = rest ∧
      IsFaultOf (body ++ [semicolon]) fault := by
  have hkeeps := keeps_rule hform first s
  unfold Keeps at hkeeps
  rw [run_statement, run_bind]
  cases hrule : (form.rule first).run s with
  | error fault t =>
    rw [hrule] at hkeeps
    obtain ⟨hdiag, body', -, ht⟩ := hkeeps.1 _ _ _ hs
    exact ⟨hdiag, ht.rest_synchronize, hkeeps.2 _ _ _ hs⟩
  | ok value t =>
    rw [hrule] at hkeeps
    obtain ⟨hdiag, body', hsuffix, ht⟩ := hkeeps _ _ _ hs
    dsimp only
    rw [run_bind, run_expect]
    by_cases hcurrent : t.current.kind = .semicolon
    · rw [if_pos hcurrent]
      exact ⟨hdiag, ht.rest_advance hcurrent⟩
    · rw [if_neg hcurrent, if_neg ht.current_ne_unknown]
      have hblames : t.Blames (.unexpected (.token .semicolon) t.current) :=
        State.blames_current rfl rfl
      exact ⟨hdiag, ht.rest_synchronize, (hblames.of_staysIn hkeeps) _ _ _ hs⟩

theorem State.AtItem.report {s : State} {body rest : List Token} {semicolon : Token}
    (h : s.AtItem body semicolon rest) (fault : Diagnostic) :
    (s.report fault).AtItem body semicolon rest :=
  ⟨h.rest_eq, h.plain, h.kind_semicolon⟩

/-- A keyword in front of an item starts a statement. -/
theorem mem_barredFirst_of_keyword (keyword : Keyword)
    (h : StatementForm.ofKind? (.keyword keyword) = none) : .keyword keyword ∈ barredFirst := by
  cases keyword with
  | var | read | print | assert => cases h
  | «for» | «end» | «in» | «do» | int | string | bool => decide

/-- A token that starts no statement is reported, and its item is left out. -/
theorem blockRun_of_stray {inLoop : Bool} {s : State} {token : Token} {following : List Token}
    (hrest : s.rest = token :: following) (hbarred : token.kind ∉ barredFirst)
    (hunknown : token.kind ≠ .unknown) (hform : StatementForm.ofKind? token.kind = none) :
    blockRun inLoop s = blockRun inLoop (s.report (.unexpected .statement token)).synchronize := by
  have hend : ¬ (inLoop = true ∧ token.kind = .keyword .end) := by
    rintro ⟨-, hkind⟩
    exact hbarred (hkind ▸ by decide)
  rw [blockRun_of_cons hrest, if_neg hend, if_neg hunknown, hform]
  dsimp only
  split
  · rename_i keyword hkind
    rw [hkind] at hform hbarred
    exact absurd (mem_barredFirst_of_keyword keyword hform) hbarred
  · rfl

/-- What a block reads behind a broken item is what it reads without it, after one report. -/
theorem blockRun_of_isBroken {inLoop : Bool} {s : State} {item rest : List Token}
    (h : IsBroken item) (hs : s.Numerals) (hrest : s.rest = item ++ rest) :
    ∃ fault t, blockRun inLoop s = blockRun inLoop t ∧ t.rest = rest ∧
      t.diagnostics = s.diagnostics ++ [fault] ∧ IsFaultOf item fault := by
  obtain @⟨body, semicolon, hbody, hfirst, hsemicolon, hbroken⟩ := h
  rw [List.append_assoc, List.singleton_append] at hrest
  have hitem : s.AtItem body semicolon rest :=
    ⟨hrest, fun token hmem => ⟨(hbody token hmem).1, (hbody token hmem).2.1⟩, hsemicolon⟩
  have hstray : ∀ token following, s.rest = token :: following → token.kind ∉ barredFirst →
      StatementForm.ofKind? token.kind = none → ∃ fault t, blockRun inLoop s = blockRun inLoop t ∧
        t.rest = rest ∧ t.diagnostics = s.diagnostics ++ [fault] ∧
          IsFaultOf (body ++ [semicolon]) fault := by
    intro token following hcons hbarred hform
    have hcurrent : s.current = token := State.current_eq hcons
    have hunknown : token.kind ≠ .unknown := hcurrent ▸ hitem.current_ne_unknown
    refine ⟨.unexpected .statement token, _, blockRun_of_stray hcons hbarred hunknown hform,
      (hitem.report _).rest_synchronize, rfl, rfl, token, hcurrent ▸ hitem.current_mem, rfl⟩
  cases body with
  | nil => exact hstray semicolon rest hrest (by rw [hsemicolon]; decide) (by rw [hsemicolon]; rfl)
  | cons first body =>
    have hbarred : first.kind ∉ barredFirst := hfirst first rfl
    cases hform : StatementForm.ofKind? first.kind with
    | none => exact hstray first _ hrest hbarred hform
    | some form =>
      have hkind := StatementForm.kind_of_ofKind? hform
      have hloop : form ≠ .loop := by
        rintro rfl
        exact hbarred (hkind ▸ by decide)
      rw [List.cons_append] at hrest
      have hinside : (s.skipTo (body ++ semicolon :: rest)).AtItem body semicolon rest :=
        ⟨rfl, fun token hmem => hitem.plain token (List.mem_cons_of_mem _ hmem), hsemicolon⟩
      have hstatement := Rule.run_statement_of_atItem hloop first hinside
      rw [blockRun_of_form hrest hkind]
      cases hrun : (Rule.statement form first).run (s.skipTo (body ++ semicolon :: rest)) with
      | error fault t =>
        rw [hrun] at hstatement
        obtain ⟨hdiag, hsynchronize, hfault, token, hmem, hposition⟩ := hstatement
        refine ⟨fault, _, rfl, hsynchronize, ?_, hfault, token, ?_, hposition⟩
        · show t.diagnostics ++ [fault] = _
          rw [hdiag]
          rfl
        · exact List.mem_cons_of_mem _ hmem
      | ok v t =>
        rw [hrun] at hstatement
        obtain ⟨hdiag, ht⟩ := hstatement
        have hs' : (s.skipTo (body ++ semicolon :: rest)).Numerals :=
          hs.of_suffix (hrest ▸ List.suffix_cons _ _)
        obtain ⟨tokens, htokens, hsimple⟩ := isSimple_of_reads hkind hloop hs' ⟨hrun, hdiag⟩
        have htokens' : body ++ [semicolon] = tokens := by
          rw [ht, State.rest_skipTo, List.append_cons] at htokens
          exact List.append_cancel_right htokens
        have hblock := IsBlock.simple hsimple .nil
        rw [List.append_nil, ← htokens'] at hblock
        exact absurd hblock (hbroken _ _ _)

/-- Broken items are left out of a block and reported once each, whatever follows. -/
theorem blockRun_of_isNest {tokens : List Token} {b : Block} {items : List (List Token)}
    (h : IsNest tokens b items) :
    ∀ (inLoop : Bool) (s : State) (rest : List Token), s.rest = tokens ++ rest → s.Numerals →
      ∃ b' faults t, blockRun inLoop s = (b' ++ (blockRun inLoop t).1, (blockRun inLoop t).2) ∧
        b'.untagged = b.untagged ∧ t.rest = rest ∧ t.diagnostics = s.diagnostics ++ faults ∧
        List.Forall₂ IsFaultOf items faults := by
  induction h with
  | nil =>
    intro inLoop s rest hrest _
    exact ⟨[], [], s, rfl, rfl, hrest, (List.append_nil _).symm, .nil⟩
  | simple h _ ih =>
    intro inLoop s rest hrest hs
    rw [List.append_assoc] at hrest
    obtain ⟨v', types', hsimple, hv⟩ := h.retype s.types
    have hs' := hs.of_suffix (t := s.moveTo (_ ++ rest) types') (hrest ▸ List.suffix_append _ _)
    obtain ⟨b', faults, t, hrun, hb, ht, hdiag, hfaults⟩ := ih inLoop _ rest rfl hs'
    refine ⟨v' :: b', faults, t, ?_, ?_, ht, hdiag, hfaults⟩
    · rw [blockRun_of_isSimple hsimple hrest, hrun]
      rfl
    · show v'.untagged :: b'.untagged = _
      rw [hv, hb]
      rfl
  | @loop types «for» header inner ending after counter start stop body b items items' hfor hheader
      _ hend _ ihbody ih =>
    intro inLoop s rest hrest hs
    simp only [List.cons_append, List.append_assoc] at hrest
    obtain ⟨counter', start', stop', hheader', hc, hx, hy⟩ := hheader.retype s.types
    have hs' : (s.skipTo (inner ++ (ending ++ (after ++ rest)))).Numerals := by
      refine hs.of_suffix ?_
      rw [hrest]
      exact (List.suffix_append _ _).trans (List.suffix_cons _ _)
    obtain ⟨body', faults, t, hrun, hb, ht, hdiag, hfaults⟩ := ihbody true _ _ rfl hs'
    have hbody : blockRun true (s.skipTo (inner ++ (ending ++ (after ++ rest)))) = (body', t) := by
      cases hend with
      | mk hend _ _ => rw [hrun, blockRun_of_end ht hend, List.append_nil]
    have hs'' : (t.skipTo (after ++ rest)).Numerals := by
      refine hs'.of_suffix ?_
      exact (List.suffix_append _ _).trans (List.suffix_append _ _)
    obtain ⟨b', faults', u, hrun', hb', hu, hdiag', hfaults'⟩ := ih inLoop _ rest rfl hs''
    refine ⟨.loop counter' start' stop' body' :: b', faults ++ faults', u, ?_, ?_, hu, ?_, ?_⟩
    · rw [blockRun_of_isHeader hfor hheader' hrest hbody hend ht, hrun']
      rfl
    · show Statement.loop (counter'.relabel _ id) start'.untagged stop'.untagged body'.untagged ::
        b'.untagged = _
      rw [hc, hx, hy, hb, hb']
      rfl
    · rw [hdiag', State.diagnostics_skipTo, hdiag, State.diagnostics_skipTo, List.append_assoc]
    · exact List.rel_append hfaults hfaults'
  | broken hitem _ ih =>
    intro inLoop s rest hrest hs
    rw [List.append_assoc] at hrest
    obtain ⟨fault, t, hrun, ht, hdiag, hfault⟩ := blockRun_of_isBroken hitem hs hrest
    have hs' : t.Numerals := hs.of_suffix (by rw [ht, hrest]; exact List.suffix_append _ _)
    obtain ⟨b', faults, u, hrun', hb, hu, hdiag', hfaults⟩ := ih inLoop t rest ht hs'
    refine ⟨b', fault :: faults, u, hrun.trans hrun', hb, hu, ?_, .cons hfault hfaults⟩
    rw [hdiag', hdiag, List.append_assoc, List.singleton_append]

/-- Panic-mode recovery is exact: the tree is that of the statements around the broken items, and
there is one syntax error for each broken item, in it and in the order of the text. -/
theorem parseText_of_isNest (text : String) (b : Block) (items : List (List Token))
    (h : IsNest (tokenize text) b items) :
    (parseText text).program.statements.untagged = b.untagged ∧
      List.Forall₂ IsFaultOf items (parseText text).diagnostics := by
  have hrest : (State.initial .empty (tokenize text)).rest = tokenize text ++ [] := by
    rw [State.rest_initial_tokenize, List.append_nil]
  obtain ⟨b', faults, t, hrun, hb, ht, hdiag, hfaults⟩ :=
    blockRun_of_isNest h false _ [] hrest (State.numerals_initial .empty text)
  rw [blockRun_of_nil ht, List.append_nil] at hrun
  rw [parseText_eq]
  constructor
  · exact (congrArg (fun run => Block.untagged run.1) hrun).trans hb
  · have hdiagnostics : (parseTokens (tokenize text) .empty).diagnostics = faults :=
      (congrArg (fun run => run.2.diagnostics) hrun).trans hdiag
    rw [hdiagnostics]
    exact hfaults

/-- Tokens that start no statement, through their first `;`, are a broken item. -/
theorem isBroken_of_first (first semicolon : Token) (body : List Token)
    (hbody : ∀ token ∈ first :: body,
      token.kind ≠ .semicolon ∧ token.kind ≠ .unknown ∧ token.kind ≠ .eof)
    (hbarred : first.kind ∉ barredFirst) (hform : StatementForm.ofKind? first.kind = none)
    (hsemicolon : semicolon.kind = .semicolon) : IsBroken (first :: body ++ [semicolon]) := by
  have hkind : ∀ form : StatementForm, first.kind ≠ form.kind := by
    intro form h
    rw [h, StatementForm.ofKind?_kind] at hform
    cases hform
  refine .mk hbody (fun token htoken => Option.some.inj htoken ▸ hbarred) hsemicolon ?_
  intro types v types' h
  generalize htokens : first :: body ++ [semicolon] = tokens at h
  cases h with
  | simple hsimple _ =>
    obtain ⟨form, first', following, rfl, hfirst, -⟩ := reads_of_isSimple hsimple
    exact hkind form ((List.cons.inj htokens).1 ▸ hfirst)
  | loop hfor => exact hkind .loop ((List.cons.inj htokens).1 ▸ hfor)

/-- A broken item in the body of a loop does not end the loop. -/
theorem parseText_broken_body :
    let text := "for i in 1..2 do ) end do; end for;"
    let b : Block := [.loop ⟨"i", none, ⟨1, 5⟩⟩ (.int 1) (.int 2) []]
    let item : List Token := [⟨.rightParen, ")", ⟨1, 18⟩⟩, ⟨.keyword .end, "end", ⟨1, 20⟩⟩,
      ⟨.keyword .do, "do", ⟨1, 24⟩⟩, ⟨.semicolon, ";", ⟨1, 26⟩⟩]
    IsNest (tokenize text) b [item] ∧
      (parseText text).program.statements.untagged = b.untagged ∧
        List.Forall₂ IsFaultOf [item] (parseText text).diagnostics := by
  intro text b item
  have htokens : tokenize text =
      ⟨.keyword .for, "for", ⟨1, 1⟩⟩ :: (⟨.identifier, "i", ⟨1, 5⟩⟩ ::
        ⟨.keyword .in, "in", ⟨1, 7⟩⟩ :: [⟨.intLiteral, "1", ⟨1, 10⟩⟩] ++
        ⟨.range, "..", ⟨1, 11⟩⟩ :: [⟨.intLiteral, "2", ⟨1, 13⟩⟩] ++
        [⟨.keyword .do, "do", ⟨1, 15⟩⟩]) ++ (item ++ []) ++
      [⟨.keyword .end, "end", ⟨1, 28⟩⟩, ⟨.keyword .for, "for", ⟨1, 32⟩⟩,
        ⟨.semicolon, ";", ⟨1, 35⟩⟩] ++ [] := by
    decide +kernel
  have hitem : IsBroken item :=
    isBroken_of_first ⟨.rightParen, ")", ⟨1, 18⟩⟩ ⟨.semicolon, ";", ⟨1, 26⟩⟩
      [⟨.keyword .end, "end", ⟨1, 20⟩⟩, ⟨.keyword .do, "do", ⟨1, 24⟩⟩] (by decide) (by decide)
      rfl rfl
  have hone : Derives .empty .factor [⟨.intLiteral, "1", ⟨1, 10⟩⟩] (.int 1) :=
    @Derives.int .empty ⟨.intLiteral, "1", ⟨1, 10⟩⟩ 1 rfl (by decide +kernel) (by decide)
  have htwo : Derives .empty .factor [⟨.intLiteral, "2", ⟨1, 13⟩⟩] (.int 2) :=
    @Derives.int .empty ⟨.intLiteral, "2", ⟨1, 13⟩⟩ 2 rfl (by decide +kernel) (by decide)
  have hheader := @IsHeader.mk .empty ⟨.identifier, "i", ⟨1, 5⟩⟩ ⟨.keyword .in, "in", ⟨1, 7⟩⟩
    ⟨.range, "..", ⟨1, 11⟩⟩ ⟨.keyword .do, "do", ⟨1, 15⟩⟩ _ _ _ _ rfl rfl
    (hone.ofFactor .expr) rfl (htwo.ofFactor .expr) rfl
  have h : IsNest (tokenize text) b [item] := by
    rw [htokens]
    exact .loop rfl hheader (.broken hitem .nil) (.mk rfl rfl rfl) .nil
  exact ⟨h, parseText_of_isNest text b [item] h⟩

end Parser
end MiniPL
