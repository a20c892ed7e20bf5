import MiniPL.Proofs.Sentences

/-!
# Loops without their `do`

What reading makes of a program in which one loop, at any level of nesting, lacks its `do`.  The
faulty header is skipped through the next `do` or the next `;`, or up to `end`.  If the body starts
with a statement without a body, or is empty, the loop is left out with one report and everything
around it is read as before.  If the body starts with a loop, the `do` of that loop is taken for the
missing one, so that the inner `end for` closes the faulty loop; one `end` is then left over, and
reading stops in front of it.

`Block.Context` is a program with a hole, `Surrounds` ties it to the tokens around the hole, and
`IsLoopAt` says which loop a `do` belongs to.  `Takes` says what a block makes of tokens, whatever
stands behind them; it is closed under appending (`Takes.append`) and under putting the tokens into
a program (`Takes.surrounded`).  Main statement: `parse_without_do`.
-/

namespace MiniPL

/-! ### Programs with a hole -/

/-- A block with a hole between two of its statements, at any level of nesting. -/
inductive Block.Context
  | here (before after : Block)
  | inLoop (before : Block) (counter : Identifier) (start stop : Expr) (inner : Context)
    (after : Block)

/-- The block with statements in the hole. -/
def Block.Context.fill : Context → Block → Block
  | here before after, b => before ++ b ++ after
  | inLoop before counter start stop inner after, b =>
    before ++ [.loop counter start stop (inner.fill b)] ++ after

/-- The context behind further statements. -/
def Block.Context.behind (front : Block) : Context → Context
  | here before after => here (front ++ before) after
  | inLoop before counter start stop inner after =>
    inLoop (front ++ before) counter start stop inner after

theorem Block.Context.fill_behind (front : Block) (context : Context) (b : Block) :
    (context.behind front).fill b = front ++ context.fill b := by
  cases context <;> simp only [behind, fill, List.append_assoc]

theorem Block.untagged_append (b c : Block) :
    Block.untagged (b ++ c) = b.untagged ++ c.untagged := by
  induction b with
  | nil => rfl
  | cons v b ih => exact congrArg (v.untagged :: ·) ih

namespace Grammar

/-- `Surrounds types left context right`: the tokens on the left and on the right of the hole are
those of the context; the table holds the types known in front of them. -/
inductive Surrounds : TypeTable → List Token → Block.Context → List Token → Prop
  | here {types₁ types₂ types₃ types₄ : TypeTable} {left right : List Token} {before after : Block}
    (hleft : IsBlock types₁ left before types₂) (hright : IsBlock types₃ right after types₄) :
    Surrounds types₁ left (.here before after) right
  | inLoop {types₁ types₂ types₃ types₄ : TypeTable} {front left right ending rest : List Token}
    {«for» : Token} {header : List Token} {before after : Block} {counter : Identifier}
    {start stop : Expr} {inner : Block.Context} (hfront : IsBlock types₁ front before types₂)
    (hfor : «for».kind = .keyword .for) (hheader : IsHeader types₂ header counter start stop)
    (hinner : Surrounds types₂ left inner right) (hend : IsEnd ending)
    (hrest : IsBlock types₃ rest after types₄) :
    Surrounds types₁ (front ++ («for» :: header ++ left))
      (.inLoop before counter start stop inner after) (right ++ (ending ++ rest))

/-- `IsLoopAt types front do back context loop`: the token `do`, with the other tokens in front of
it and behind it, belongs to the loop, which stands in the hole of the context. -/
inductive IsLoopAt (types : TypeTable) :
    List Token → Token → List Token → Block.Context → Statement → Prop
  | mk {types₁ types₂ : TypeTable} {left header inner ending right : List Token}
    {«for» «do» : Token} {context : Block.Context} {counter : Identifier} {start stop : Expr}
    {body : Block} (hcontext : Surrounds types left context right)
    (hfor : «for».kind = .keyword .for)
    (hheader : IsHeader types₁ (header ++ [«do»]) counter start stop)
    (hbody : IsBlock types₁ inner body types₂) (hend : IsEnd ending) :
    IsLoopAt types (left ++ «for» :: header) «do» (inner ++ (ending ++ right)) context
      (.loop counter start stop body)

/-! ### Every `do` belongs to a loop -/

theorem Surrounds.behind {types types' : TypeTable} {front left right : List Token} {b : Block}
    {context : Block.Context} (hfront : IsBlock types front b types')
    (h : Surrounds types' left context right) :
    Surrounds types (front ++ left) (context.behind b) right := by
  cases h with
  | here hleft hright => exact .here (hfront.append hleft) hright
  | inLoop hfront' hfor hheader hinner hend hrest =>
    rw [← List.append_assoc]
    exact .inLoop (hfront.append hfront') hfor hheader hinner hend hrest

theorem IsLoopAt.behind {types types' : TypeTable} {front tokens back : List Token} {«do» : Token}
    {b : Block} {context : Block.Context} {loop : Statement} (hfront : IsBlock types front b types')
    (h : IsLoopAt types' tokens «do» back context loop) :
    IsLoopAt types (front ++ tokens) «do» back (context.behind b) loop := by
  cases h with
  | mk hcontext hfor hheader hbody hend =>
    rw [← List.append_assoc]
    exact .mk (hcontext.behind hfront) hfor hheader hbody hend

/-- A loop in the body of a loop. -/
theorem IsLoopAt.inLoop {types types₁ types₂ : TypeTable}
    {header front back ending rest : List Token} {«for» «do» : Token} {counter : Identifier}
    {start stop : Expr} {context : Block.Context}
    {loop : Statement} {after : Block} (hfor : «for».kind = .keyword .for)
    (hheader : IsHeader types header counter start stop)
    (h : IsLoopAt types front «do» back context loop) (hend : IsEnd ending)
    (hrest : IsBlock types₁ rest after types₂) :
    IsLoopAt types («for» :: header ++ front) «do» (back ++ (ending ++ rest))
      (.inLoop [] counter start stop context after) loop := by
  cases h with
  | mk hcontext hfor' hheader' hbody hend' =>
    simp only [List.append_assoc]
    rw [← List.append_assoc]
    exact .mk (.inLoop .nil hfor hheader hcontext hend hrest) hfor' hheader' hbody hend'

/-- A token of two lists in a row is a token of the first or of the second. -/
theorem append_eq_append_cons {α : Type} {xs ys front back : List α} {x : α}
    (h : xs ++ ys = front ++ x :: back) :
    (∃ back', xs = front ++ x :: back' ∧ back = back' ++ ys) ∨
      ∃ front', front = xs ++ front' ∧ ys = front' ++ x :: back := by
  rcases List.append_eq_append_iff.1 h with ⟨front', hfront, hys⟩ | ⟨back', hxs, hback⟩
  · exact .inr ⟨front', hfront, hys⟩
  · cases back' with
    | nil => exact .inr ⟨[], by rw [hxs]; simp, hback.symm⟩
    | cons y back' =>
      obtain ⟨rfl, rfl⟩ := List.cons.inj hback
      exact .inl ⟨back', hxs, rfl⟩

theorem IsEnd.kind_ne_do {tokens : List Token} (h : IsEnd tokens) :
    ∀ token ∈ tokens, token.kind ≠ .keyword .do := by
  cases h with
  | mk hend hfor hsemicolon => simp [hend, hfor, hsemicolon]

/-- The `do` of a header is its last token. -/
theorem IsHeader.eq_nil_of_do {types : TypeTable} {front back : List Token} {«do» : Token}
    {counter : Identifier} {start stop : Expr}
    (h : IsHeader types (front ++ «do» :: back) counter start stop)
    (hdo : «do».kind = .keyword .do) : back = [] := by
  obtain ⟨body, last, hbody, -, hinner⟩ := h.exists_inner
  rcases append_eq_append_cons hbody.symm with ⟨back', hmem, -⟩ | ⟨front', -, hlast⟩
  · have hinner' : «do».kind.isInner = true :=
      hinner «do» (by rw [hmem]; exact List.mem_append_right _ List.mem_cons_self)
    exact absurd hinner' (by rw [hdo]; decide)
  · cases front' with
    | nil => exact (List.cons.inj hlast).2.symm
    | cons _ front' => exact absurd (List.cons.inj hlast).2 (by simp)

/-- A loop of a block is a loop of the block with further statements in front. -/
theorem IsBlock.isLoopAt_behind {types types' : TypeTable} {tokens front back : List Token}
    {b c : Block} {«do» : Token} (hfront : IsBlock types tokens b types')
    (h : ∃ context loop, IsLoopAt types' front «do» back context loop ∧ c = context.fill [loop]) :
    ∃ context loop, IsLoopAt types (tokens ++ front) «do» back context loop ∧
      b ++ c = context.fill [loop] := by
  obtain ⟨context, loop, hloop, rfl⟩ := h
  exact ⟨_, loop, hloop.behind hfront, (Block.Context.fill_behind b context [loop]).symm⟩

/-- Every `do` of a block belongs to one of its loops. -/
theorem IsBlock.isLoopAt {types types' : TypeTable} {tokens front back : List Token} {b : Block}
    {«do» : Token} (h : IsBlock types tokens b types') (htokens : tokens = front ++ «do» :: back)
    (hdo : «do».kind = .keyword .do) :
    ∃ context loop, IsLoopAt types front «do» back context loop ∧ b = context.fill [loop] := by
  induction h generalizing front back with
  | nil => simp at htokens
  | simple h _ ih =>
    rcases append_eq_append_cons htokens with ⟨back', rfl, -⟩ | ⟨front', rfl, hrest⟩
    · exact absurd hdo (h.kind_ne rfl (by decide) _ (List.mem_append_right _ List.mem_cons_self))
    · have hfront := IsBlock.simple h .nil
      rw [List.append_nil] at hfront
      exact hfront.isLoopAt_behind (ih hrest)
  | @loop types types' types'' «for» header inner ending rest counter start stop body b hfor hheader
      hbody hend hrest ihbody ih =>
    rw [List.append_assoc, List.append_assoc] at htokens
    cases front with
    | nil =>
      rw [← (List.cons.inj htokens).1, hfor] at hdo
      cases hdo
    | cons token front =>
      obtain rfl : «for» = token := (List.cons.inj htokens).1
      have hbehind : header ++ (inner ++ (ending ++ rest)) = front ++ «do» :: back :=
        (List.cons.inj htokens).2
      -- The token stands in the header, in the body, in the end or behind the loop.
      rcases append_eq_append_cons hbehind with ⟨back', rfl, rfl⟩ | ⟨front₁, rfl, hinner⟩
      · obtain rfl := hheader.eq_nil_of_do hdo
        exact ⟨.here [] b, _, .mk (.here .nil hrest) hfor hheader hbody hend, rfl⟩
      rcases append_eq_append_cons hinner with ⟨back', hinner', rfl⟩ | ⟨front₂, rfl, hending⟩
      · obtain ⟨context, loop, hloop, rfl⟩ := ihbody hinner'
        exact ⟨_, loop, hloop.inLoop hfor hheader hend hrest, rfl⟩
      rcases append_eq_append_cons hending with ⟨back', rfl, -⟩ | ⟨front₃, rfl, hrest'⟩
      · exact absurd hdo (hend.kind_ne_do _ (List.mem_append_right _ List.mem_cons_self))
      · have hfront := IsBlock.loop hfor hheader hbody hend .nil
        have hat := hfront.isLoopAt_behind (ih hrest')
        simp only [List.append_nil, List.cons_append, List.append_assoc] at hat
        exact hat

end Grammar

namespace Parser

open Grammar

/-! ### What a block makes of tokens -/

/-- `Takes tokens b faults`: whatever stands behind the tokens, a block reads them as the statements
of `b`, up to type tags, and reports the faults. -/
def Takes (tokens : List Token) (b : Block) (faults : List Diagnostic) : Prop :=
  ∀ (inLoop : Bool) (s : State) (rest : List Token), s.rest = tokens ++ rest →
    ∃ b' t, blockRun inLoop s = (b' ++ (blockRun inLoop t).1, (blockRun inLoop t).2) ∧
      b'.untagged = b.untagged ∧ t.rest = rest ∧ t.diagnostics = s.diagnostics ++ faults

theorem takes_of_isBlock {types types' : TypeTable} {tokens : List Token} {b : Block}
    (h : IsBlock types tokens b types') : Takes tokens b [] := by
  intro inLoop s rest hrest
  obtain ⟨b', types'', hblock, hb⟩ := h.retype s.types
  exact ⟨b', s.moveTo rest types'', blockRun_of_isBlock hblock inLoop s rest rfl hrest, hb, rfl,
    (List.append_nil _).symm⟩

theorem takes_nil : Takes [] [] [] :=
  takes_of_isBlock (@IsBlock.nil .empty)

section
variable {tokens tokens' : List Token} {b b' : Block} {faults faults' : List Diagnostic}

theorem Takes.append (h : Takes tokens b faults) (h' : Takes tokens' b' faults') :
    Takes (tokens ++ tokens') (b ++ b') (faults ++ faults') := by
  intro inLoop s rest hrest
  rw [List.append_assoc] at hrest
  obtain ⟨c, t, hrun, hc, ht, hdiag⟩ := h inLoop s _ hrest
  obtain ⟨c', u, hrun', hc', hu, hdiag'⟩ := h' inLoop t rest ht
  refine ⟨c ++ c', u, ?_, ?_, hu, ?_⟩
  · rw [hrun, hrun', List.append_assoc]
  · rw [Block.untagged_append, hc, hc', ← Block.untagged_append]
  · rw [hdiag', hdiag, List.append_assoc]

/-- The body of a loop comes to the end of the loop. -/
theorem Takes.blockRun_body (h : Takes tokens b faults) {s : State} {ending rest : List Token}
    (hrest : s.rest = tokens ++ (ending ++ rest)) (hend : IsEnd ending) :
    ∃ b' t, blockRun true s = (b', t) ∧ b'.untagged = b.untagged ∧ t.rest = ending ++ rest ∧
      t.diagnostics = s.diagnostics ++ faults := by
  obtain ⟨b', t, hrun, hb, ht, hdiag⟩ := h true s _ hrest
  refine ⟨b', t, ?_, hb, ht, hdiag⟩
  cases hend with
  | mk hend _ _ => rw [hrun, blockRun_of_end ht hend, List.append_nil]

theorem Takes.inLoop {types : TypeTable} {«for» : Token} {header ending : List Token}
    {counter : Identifier} {start stop : Expr} (h : Takes tokens b faults)
    (hfor : «for».kind = .keyword .for) (hheader : IsHeader types header counter start stop)
    (hend : IsEnd ending) :
    Takes («for» :: header ++ (tokens ++ ending)) [.loop counter start stop b] faults := by
  intro inLoop s rest hrest
  simp only [List.cons_append, List.append_assoc] at hrest
  obtain ⟨counter', start', stop', hheader', hc, hx, hy⟩ := hheader.retype s.types
  obtain ⟨b', t, hbody, hb, ht, hdiag⟩ :=
    h.blockRun_body (s := s.skipTo (tokens ++ (ending ++ rest))) rfl hend
  refine ⟨[.loop counter' start' stop' b'], t.skipTo rest,
    blockRun_of_isHeader hfor hheader' hrest hbody hend ht, ?_, rfl, hdiag⟩
  show [Statement.loop (counter'.relabel _ id) start'.untagged stop'.untagged b'.untagged] = _
  rw [hc, hx, hy, hb]
  rfl

/-- Tokens that stand in a program are taken with it. -/
theorem Takes.surrounded {types : TypeTable} {left right : List Token} {context : Block.Context}
    (h : Takes tokens b faults) (hcontext : Surrounds types left context right) :
    Takes (left ++ (tokens ++ right)) (context.fill b) faults := by
  induction hcontext with
  | here hleft hright =>
    have hall := (takes_of_isBlock hleft).append (h.append (takes_of_isBlock hright))
    simpa only [List.nil_append, List.append_nil, Block.Context.fill, List.append_assoc] using hall
  | inLoop hfront hfor hheader _ hend hrest ih =>
    have hall := (takes_of_isBlock hfront).append
      ((ih.inLoop hfor hheader hend).append (takes_of_isBlock hrest))
    simpa only [List.nil_append, List.append_nil, Block.Context.fill, List.append_assoc,
      List.cons_append] using hall

end

/-- What a program is that is taken from its tokens. -/
theorem Takes.parseTokens {tokens : List Token} {b : Block} {faults : List Diagnostic}
    (h : Takes tokens b faults) (htokens : ∀ token ∈ tokens, token.kind ≠ .eof)
    (types : TypeTable) :
    (MiniPL.parseTokens tokens types).program.statements.untagged = b.untagged ∧
      (MiniPL.parseTokens tokens types).diagnostics = faults := by
  have hrest : (State.initial types tokens).rest = tokens ++ [] := by
    rw [State.rest_initial htokens, List.append_nil]
  obtain ⟨b', t, hrun, hb, ht, hdiag⟩ := h false _ [] hrest
  rw [blockRun_of_nil ht, List.append_nil] at hrun
  exact ⟨(congrArg (fun run => Block.untagged run.1) hrun).trans hb,
    (congrArg (fun run => run.2.diagnostics) hrun).trans hdiag⟩

/-! ### Skipping a faulty header -/

/-- Tokens that stand inside of statements are skipped with a header. -/
theorem behindHeader_append {body rest : List Token}
    (hbody : ∀ token ∈ body, token.kind.isInner = true) :
    behindHeader (body ++ rest) = behindHeader rest := by
  induction body with
  | nil => rfl
  | cons token body ih =>
    obtain ⟨hinner, hbody⟩ := List.forall_mem_cons.1 hbody
    have hend : token.kind ≠ .keyword .end := kind_ne_of_isInner hinner rfl
    have hdo : token.kind ≠ .keyword .do := kind_ne_of_isInner hinner rfl
    have hsemicolon : token.kind ≠ .semicolon := kind_ne_of_isInner hinner rfl
    rw [List.cons_append, behindHeader, if_neg hend, if_neg (not_or.2 ⟨hdo, hsemicolon⟩)]
    exact ih hbody

/-- A loop with a faulty header is left out through the end that its body comes to. -/
theorem blockRun_of_faultyHeader (inLoop : Bool) {s t : State} {«for» : Token}
    {behind inner ending rest : List Token} {b : Block} {fault : Diagnostic}
    {faults : List Diagnostic} (hrest : s.rest = «for» :: behind)
    (hfor : «for».kind = .keyword .for)
    (hheader : Rule.loopHeader.run (s.skipTo behind) = .error fault t)
    (hskip : behindHeader t.rest = inner ++ (ending ++ rest)) (hbody : Takes inner b faults)
    (hend : IsEnd ending) :
    ∃ u, blockRun inLoop s = blockRun inLoop u ∧ u.rest = rest ∧
      u.diagnostics = t.diagnostics ++ (faults ++ [fault]) := by
  obtain ⟨b', u, hrun, -, hu, hdiag⟩ := hbody.blockRun_body (s := t.skipHeader) hskip hend
  have hstatement : (Rule.statement .loop «for»).run (s.skipTo behind) = .error fault u := by
    rw [Rule.run_statement, Rule.run_bind, StatementForm.rule, Rule.run_loop, hheader]
    dsimp only
    rw [hrun]
  refine ⟨(u.report fault).synchronize, ?_, ?_, ?_⟩
  · rw [blockRun_of_form hrest (show _ = StatementForm.loop.kind from hfor), hstatement]
  · show behindSemicolon u.rest = rest
    rw [hu]
    cases hend with
    | mk hend hfor' hsemicolon => simp [behindSemicolon, hend, hfor', hsemicolon]
  · show u.diagnostics ++ [fault] = _
    rw [hdiag, List.append_assoc]
    rfl

/-! ### Headers without `do` -/

/-- The first token of a statement, or the `end` behind the last one. -/
def startKinds : List TokenKind :=
  [.keyword .var, .identifier, .keyword .for, .keyword .print, .keyword .read, .keyword .assert,
    .keyword .end]

/-- A header that lacks only its `do` is faulty where the `do` is missing. -/
theorem run_loopHeader_without_do {types : TypeTable} {header behind rest : List Token}
    {«do» found : Token} {counter : Identifier} {start stop : Expr} {s : State}
    (hheader : IsHeader types (header ++ [«do»]) counter start stop)
    (hrest : s.rest = header ++ behind) (hbehind : behind = found :: rest)
    (hfound : found.kind ∈ startKinds) :
    Rule.loopHeader.run s =
      .error (.unexpected (.token (.keyword .do)) found) (s.skipTo behind) := by
  subst hbehind
  obtain ⟨counter', start', stop', hheader', -, -, -⟩ := hheader.retype s.types
  generalize htokens : header ++ [«do»] = tokens at hheader'
  cases hheader' with
  | @mk name within range do' first last _ _ hname hin hstart hrange hstop hdo =>
    obtain ⟨rfl, -⟩ := List.append_inj' htokens rfl
    simp only [List.cons_append, List.append_assoc] at hrest
    have hidentifier : Rule.identifier.run s = .ok (name.mention s.types)
        (s.skipTo (within :: (first ++ range :: (last ++ found :: rest)))) :=
      (Rule.reads_identifier_iff.2 ⟨name, _, hrest, hname, rfl, rfl⟩).1
    have hwithin : (Rule.expect (.keyword .in)).run
          (s.skipTo (within :: (first ++ range :: (last ++ found :: rest)))) =
        .ok within (s.skipTo (first ++ range :: (last ++ found :: rest))) :=
      ((Rule.reads_expect_iff (by decide)).2 ⟨_, rfl, hin, rfl⟩).1
    have hfirst : Rule.expr.Reads (s.skipTo (first ++ range :: (last ++ found :: rest))) start'
        (s.skipTo (range :: (last ++ found :: rest))) :=
      reads_expr_of_derives hstart rfl rfl (by rw [hrange]; decide)
    have hrange' : (Rule.expect .range).run (s.skipTo (range :: (last ++ found :: rest))) =
        .ok range (s.skipTo (last ++ found :: rest)) :=
      ((Rule.reads_expect_iff (by decide)).2 ⟨_, rfl, hrange, rfl⟩).1
    have hlast : Rule.expr.run (s.skipTo (last ++ found :: rest)) =
        .ok stop' (s.skipTo (found :: rest)) := by
      refine (readsAs_of_derives hstop (s.skipTo (last ++ found :: rest)) rfl).run_expr rfl ?_
      intro level
      rw [State.current_eq rfl]
      simp only [startKinds, List.mem_cons, List.not_mem_nil, or_false] at hfound
      rcases hfound with h | h | h | h | h | h | h <;> rw [h] <;> cases level <;> rfl
    have hnone : (Rule.expect (.keyword .do)).run (s.skipTo (found :: rest)) =
        .error (.unexpected (.token (.keyword .do)) found) (s.skipTo (found :: rest)) := by
      rw [Rule.run_expect, State.current_eq rfl, if_neg, if_neg]
      · intro h; rw [h] at hfound; revert hfound; decide
      · intro h; rw [h] at hfound; revert hfound; decide
    unfold Rule.loopHeader
    rw [Rule.run_bind, hidentifier]
    dsimp only
    rw [Rule.run_bind, hwithin]
    dsimp only
    rw [Rule.run_bind, hfirst.1]
    dsimp only
    rw [Rule.run_bind, hrange']
    dsimp only
    rw [Rule.run_bind, hlast]
    dsimp only
    rw [Rule.run_bind, hnone]

/-- What stands behind a header starts a statement or ends the loop. -/
theorem kind_mem_startKinds {types types' : TypeTable} {inner ending back : List Token}
    {found : Token} {b : Block} (hbody : IsBlock types inner b types') (hend : IsEnd ending)
    (hfound : inner ++ ending = found :: back) : found.kind ∈ startKinds := by
  cases hbody with
  | nil =>
    cases hend with
    | mk hend _ _ =>
      rw [← (List.cons.inj hfound).1, hend]
      decide
  | simple h _ =>
    obtain ⟨form, first, following, rfl, hfirst, -⟩ := reads_of_isSimple h
    rw [← (List.cons.inj hfound).1, hfirst]
    cases form <;> decide
  | loop hfor =>
    rw [← (List.cons.inj hfound).1, hfor]
    decide

section
variable {types types₁ types₂ : TypeTable} {header inner ending back : List Token}
  {«for» «do» found : Token} {counter : Identifier} {start stop : Expr} {body : Block}

/-- A loop that lacks its `do` is left out through the end that is found for it. -/
theorem blockRun_without_do (inLoop : Bool) {s : State} {rest inner' ending' rest' : List Token}
    {b : Block} (hrest : s.rest = «for» :: header ++ (inner ++ ending) ++ rest)
    (hfor : «for».kind = .keyword .for)
    (hheader : IsHeader types (header ++ [«do»]) counter start stop)
    (hbody : IsBlock types₁ inner body types₂) (hend : IsEnd ending)
    (hfound : inner ++ ending = found :: back)
    (hskip : behindHeader (inner ++ ending ++ rest) = inner' ++ (ending' ++ rest'))
    (htakes : Takes inner' b []) (hend' : IsEnd ending') :
    ∃ t, blockRun inLoop s = blockRun inLoop t ∧ t.rest = rest' ∧
      t.diagnostics = s.diagnostics ++ [.unexpected (.token (.keyword .do)) found] := by
  rw [List.cons_append, List.cons_append, List.append_assoc] at hrest
  have hrun := run_loopHeader_without_do (s := s.skipTo (header ++ (inner ++ ending ++ rest)))
    hheader rfl (congrArg (· ++ rest) hfound) (kind_mem_startKinds hbody hend hfound)
  exact blockRun_of_faultyHeader inLoop hrest hfor hrun hskip htakes hend'

/-- A loop that lacks its `do`, with a body that starts with no loop, is left out. -/
theorem takes_without_do (hfor : «for».kind = .keyword .for)
    (hheader : IsHeader types (header ++ [«do»]) counter start stop)
    (hbody : IsBlock types₁ inner body types₂) (hend : IsEnd ending)
    (hfound : inner ++ ending = found :: back) (hfirst : found.kind ≠ .keyword .for) :
    Takes («for» :: header ++ (inner ++ ending)) []
      [.unexpected (.token (.keyword .do)) found] := by
  intro inLoop s rest hrest
  -- The header is skipped through the first statement, or up to `end`.
  have hskip : ∃ inner' b, Takes inner' b [] ∧
      behindHeader (inner ++ ending ++ rest) = inner' ++ (ending ++ rest) := by
    cases hbody with
    | nil =>
      refine ⟨[], [], takes_nil, ?_⟩
      cases hend with
      | mk hend _ _ => simp [behindHeader, hend]
    | loop hfor' => exact absurd ((List.cons.inj hfound).1 ▸ hfor') hfirst
    | @simple _ _ _ tokens inner' _ b h hinner =>
      obtain ⟨first, semicolon, rfl, hsemicolon, hplain⟩ := h.exists_inner
      refine ⟨inner', b, takes_of_isBlock hinner, ?_⟩
      simp only [List.append_assoc, behindHeader_append hplain]
      simp [behindHeader, hsemicolon]
  obtain ⟨inner', b, htakes, hskip⟩ := hskip
  obtain ⟨u, hu, hrest', hdiag⟩ :=
    blockRun_without_do inLoop hrest hfor hheader hbody hend hfound hskip htakes hend
  exact ⟨[], u, hu, rfl, hrest', hdiag⟩

/-! ### A body that starts with a loop -/

/-- `Spills tokens faults`: whatever stands behind the tokens, a block in front of them comes to the
end of a loop that it has not entered, and has reported the faults by then. -/
def Spills (tokens : List Token) (faults : List Diagnostic) : Prop :=
  ∀ (inLoop : Bool) (s : State) (rest : List Token), s.rest = tokens ++ rest →
    ∃ b t ending after c, blockRun inLoop s = (b ++ (blockRun inLoop t).1, (blockRun inLoop t).2) ∧
      t.rest = ending ++ (after ++ rest) ∧ IsEnd ending ∧ Takes after c [] ∧
      t.diagnostics = s.diagnostics ++ faults

/-- The `do` of a loop in front of the body is taken for the missing one, and the end of that loop
for the end of the loop. -/
theorem spills_without_do (hfor : «for».kind = .keyword .for)
    (hheader : IsHeader types (header ++ [«do»]) counter start stop)
    (hbody : IsBlock types₁ inner body types₂) (hend : IsEnd ending)
    (hfound : inner ++ ending = found :: back) (hfirst : found.kind = .keyword .for) :
    Spills («for» :: header ++ (inner ++ ending)) [.unexpected (.token (.keyword .do)) found] := by
  intro inLoop s rest hrest
  have hskip : ∃ inner' b ending' after c, Takes inner' b [] ∧ IsEnd ending' ∧ Takes after c [] ∧
      behindHeader (inner ++ ending ++ rest) =
        inner' ++ (ending' ++ (after ++ (ending ++ rest))) := by
    cases hbody with
    | nil =>
      cases hend with
      | mk hend _ _ =>
        rw [← (List.cons.inj hfound).1, hend] at hfirst
        cases hfirst
    | simple h _ =>
      obtain ⟨form, first, following, rfl, -, -⟩ := reads_of_isSimple h
      obtain rfl : first = found := (List.cons.inj hfound).1
      exact absurd hfirst (h.kind_ne rfl (by decide) _ List.mem_cons_self)
    | @loop _ _ _ for' header' inner' ending' after _ _ _ b c hfor' hheader' hinner hend' hafter =>
      obtain ⟨first, do', rfl, hdo, hplain⟩ := hheader'.exists_inner
      refine ⟨inner', b, ending', after, c, takes_of_isBlock hinner, hend', takes_of_isBlock hafter,
        ?_⟩
      simp only [List.append_assoc, List.cons_append]
      rw [behindHeader, if_neg (by rw [hfor']; decide), if_neg (by rw [hfor']; decide),
        behindHeader_append hplain]
      simp [behindHeader, hdo]
  obtain ⟨inner', b, ending', after, c, htakes, hend', hafter, hskip⟩ := hskip
  obtain ⟨u, hu, hrest', hdiag⟩ :=
    blockRun_without_do inLoop hrest hfor hheader hbody hend hfound hskip htakes hend'
  obtain ⟨b', t, hblock, -, ht, hdiag'⟩ := hafter inLoop u _ hrest'
  refine ⟨b', t, ending, [], [], hu.trans hblock, ht, hend, takes_nil, ?_⟩
  rw [hdiag', hdiag, List.append_nil]

end

section
variable {tokens tokens' : List Token} {b : Block} {faults : List Diagnostic}

theorem Spills.behind (h : Spills tokens faults) (hfront : Takes tokens' b []) :
    Spills (tokens' ++ tokens) faults := by
  intro inLoop s rest hrest
  rw [List.append_assoc] at hrest
  obtain ⟨b', t, hrun, -, ht, hdiag⟩ := hfront inLoop s _ hrest
  obtain ⟨c, u, ending, after, c', hrun', hu, hend, hafter, hdiag'⟩ := h inLoop t rest ht
  refine ⟨b' ++ c, u, ending, after, c', ?_, hu, hend, hafter, ?_⟩
  · rw [hrun, hrun', List.append_assoc]
  · rw [hdiag', hdiag, List.append_nil]

theorem Spills.append (h : Spills tokens faults) (hback : Takes tokens' b []) :
    Spills (tokens ++ tokens') faults := by
  intro inLoop s rest hrest
  rw [List.append_assoc] at hrest
  obtain ⟨c, u, ending, after, c', hrun, hu, hend, hafter, hdiag⟩ := h inLoop s _ hrest
  refine ⟨c, u, ending, after ++ tokens', c' ++ b, hrun, ?_, hend, hafter.append hback, hdiag⟩
  rw [hu, List.append_assoc]

/-- A loop around the tokens takes the left-over end for its own, so that its own is left over. -/
theorem Spills.inLoop {types : TypeTable} {«for» : Token} {header ending : List Token}
    {counter : Identifier} {start stop : Expr} (h : Spills tokens faults)
    (hfor : «for».kind = .keyword .for) (hheader : IsHeader types header counter start stop)
    (hend : IsEnd ending) : Spills («for» :: header ++ (tokens ++ ending)) faults := by
  intro inLoop s rest hrest
  simp only [List.cons_append, List.append_assoc] at hrest
  obtain ⟨counter', start', stop', hheader', -, -, -⟩ := hheader.retype s.types
  obtain ⟨c, u, ending', after, c', hrun, hu, hend', hafter, hdiag⟩ :=
    h true (s.skipTo (tokens ++ (ending ++ rest))) _ rfl
  have hbody : blockRun true (s.skipTo (tokens ++ (ending ++ rest))) = (c, u) := by
    cases hend' with
    | mk hend' _ _ => rw [hrun, blockRun_of_end hu hend', List.append_nil]
  obtain ⟨d, t, hrun', -, ht, hdiag'⟩ := hafter inLoop (u.skipTo (after ++ (ending ++ rest))) _ rfl
  refine ⟨.loop counter' start' stop' c :: d, t, ending, [], [], ?_, ht, hend,
    takes_nil, ?_⟩
  · rw [blockRun_of_isHeader hfor hheader' hrest hbody hend' hu, hrun']
    rfl
  · rw [hdiag', List.append_nil]
    exact hdiag

theorem Spills.surrounded {types : TypeTable} {left right : List Token} {context : Block.Context}
    (h : Spills tokens faults) (hcontext : Surrounds types left context right) :
    Spills (left ++ (tokens ++ right)) faults := by
  induction hcontext with
  | here hleft hright =>
    exact (h.append (takes_of_isBlock hright)).behind (takes_of_isBlock hleft)
  | inLoop hfront hfor hheader _ hend hrest ih =>
    have hall := ((ih.inLoop hfor hheader hend).append (takes_of_isBlock hrest)).behind
      (takes_of_isBlock hfront)
    simpa only [List.append_assoc, List.cons_append] using hall

/-- At the outermost level the left-over end is reported, and reading stops. -/
theorem Spills.diagnostics_parseTokens (h : Spills tokens faults)
    (htokens : ∀ token ∈ tokens, token.kind ≠ .eof) (types : TypeTable) :
    ∃ «end», «end».kind = .keyword .end ∧
      (parseTokens tokens types).diagnostics = faults ++ [.unrecognizedStatement «end»] := by
  have hrest : (State.initial types tokens).rest = tokens ++ [] := by
    rw [State.rest_initial htokens, List.append_nil]
  obtain ⟨b, t, ending, after, c, hrun, ht, hend, -, hdiag⟩ := h false _ [] hrest
  cases hend with
  | @mk «end» for' semicolon hend _ _ =>
    refine ⟨«end», hend, ?_⟩
    have hstop : blockRun false t = ([], t.report (.unrecognizedStatement «end»)) := by
      rw [blockRun_of_cons ht, if_neg (by simp), if_neg (by rw [hend]; decide), hend]
      rfl
    rw [hstop] at hrun
    have hdiag' : (parseTokens tokens types).diagnostics =
        (t.report (.unrecognizedStatement «end»)).diagnostics :=
      congrArg (fun run => run.2.diagnostics) hrun
    rw [hdiag', State.diagnostics_report, hdiag]
    rfl

end

/-! ### The program without the `do` -/

/-- What reading makes of a clean program with one `do` left out.  The `do` belongs to a loop at
some level of nesting.  If the body of the loop starts with no loop, there is one report, at the
token where `do` is missing, and the statements are those of the program without that loop.  If it
starts with a loop, there is a second report: an `end` is left over. -/
theorem parse_without_do (text : String) (front back : List Token) («do» : Token)
    (hclean : (parseText text).isClean = true) (htokens : tokenize text = front ++ «do» :: back)
    (hdo : «do».kind = .keyword .do) :
    ∃ context loop found, IsLoopAt .empty front «do» back context loop ∧
      (parseText text).program.statements = context.fill [loop] ∧ back.head? = some found ∧
      (found.kind ≠ .keyword .for →
        (parse (front ++ back)).diagnostics = [.unexpected (.token (.keyword .do)) found] ∧
        (parse (front ++ back)).program.statements.untagged = (context.fill []).untagged) ∧
      (found.kind = .keyword .for → ∃ «end», «end».kind = .keyword .end ∧
        (parse (front ++ back)).diagnostics =
          [.unexpected (.token (.keyword .do)) found, .unrecognizedStatement «end»]) := by
  obtain ⟨types', hblock⟩ := isBlock_of_isClean hclean
  obtain ⟨context, loop, hloop, hfill⟩ := hblock.isLoopAt htokens hdo
  refine ⟨context, loop, ?_⟩
  have hne : ∀ token ∈ front ++ back, token.kind ≠ .eof := by
    intro token hmem
    refine hblock.kind_ne_eof token ?_
    rw [htokens]
    rcases List.mem_append.1 hmem with hmem | hmem
    · exact List.mem_append_left _ hmem
    · exact List.mem_append_right _ (List.mem_cons_of_mem _ hmem)
  have hparse : parse (front ++ back) = parseTokens (front ++ back) :=
    congrArg (parseTokens ·) (TokenStream.drain_list _)
  rw [hparse]
  cases id hloop with
  | @mk _ _ left header inner ending right «for» _ _ _ _ _ body hcontext hfor hheader hbody hend =>
    obtain ⟨found, following, hfound⟩ :
        ∃ found following, inner ++ ending = found :: following := by
      refine List.exists_cons_of_ne_nil fun hnil => ?_
      obtain ⟨-, rfl⟩ := List.append_eq_nil_iff.1 hnil
      cases hend
    have heq : left ++ «for» :: header ++ (inner ++ (ending ++ right)) =
        left ++ («for» :: header ++ (inner ++ ending) ++ right) := by
      simp only [List.append_assoc, List.cons_append]
    have hhead : (inner ++ (ending ++ right)).head? = some found := by
      rw [← List.append_assoc, hfound]
      rfl
    rw [heq] at hne ⊢
    refine ⟨found, hloop, hfill, hhead, fun hfirst => ?_, fun hfirst => ?_⟩
    · have htakes := (takes_without_do hfor hheader hbody hend hfound hfirst).surrounded hcontext
      exact (htakes.parseTokens hne .empty).symm
    · have hspills := (spills_without_do hfor hheader hbody hend hfound hfirst).surrounded hcontext
      exact hspills.diagnostics_parseTokens hne .empty

/-- The inner loop of two, with a statement behind it in the outer one, without its `do`. -/
theorem parse_without_inner_do :
    let text := "for i in 1..2 do for j in 1..3 do print j; end for; print i; end for;"
    let front := (tokenize text).take 13
    let back := (tokenize text).drop 14
    let «do» : Token := ⟨.keyword .do, "do", ⟨1, 32⟩⟩
    (parseText text).isClean = true ∧ tokenize text = front ++ «do» :: back ∧
      «do».kind = .keyword .do ∧
      ∃ context loop found, IsLoopAt .empty front «do» back context loop ∧
        (parseText text).program.statements = context.fill [loop] ∧ back.head? = some found ∧
        (found.kind ≠ .keyword .for →
          (parse (front ++ back)).diagnostics = [.unexpected (.token (.keyword .do)) found] ∧
          (parse (front ++ back)).program.statements.untagged = (context.fill []).untagged) ∧
        (found.kind = .keyword .for → ∃ «end», «end».kind = .keyword .end ∧
          (parse (front ++ back)).diagnostics =
            [.unexpected (.token (.keyword .do)) found, .unrecognizedStatement «end»]) := by
  intro text front back «do»
  have hclean : (parseText text).isClean = true := by decide +kernel
  have htokens : tokenize text = front ++ «do» :: back := by decide +kernel
  exact ⟨hclean, htokens, rfl, parse_without_do text front back «do» hclean htokens rfl⟩

/-- Without the `do` of a loop around a loop, the statement behind it is lost, and there are two
reports. -/
theorem not_one_report_without_outer_do :
    let text := "for i in 1..2 do for j in 1..3 do end for; end for; print 7;"
    let front := (tokenize text).take 6
    let back := (tokenize text).drop 7
    (parseText text).isClean = true ∧
      tokenize text = front ++ ⟨.keyword .do, "do", ⟨1, 15⟩⟩ :: back ∧
      (parse (front ++ back)).diagnostics.map (·.kind) = [.syntaxError, .unrecognizedStatement] ∧
      (parse (front ++ back)).program.statements.length = 0 := by
  decide +kernel

end Parser

end MiniPL
