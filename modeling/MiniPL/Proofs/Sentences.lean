import MiniPL.Proofs.Splitting
import MiniPL.Proofs.Statements

/-!
# Clean programs are the sentences of the grammar

A block of the grammar is read with its statements and without a report, whatever follows
(`blockRun_of_isBlock`); and a block that is read without a report is a block of the grammar
(`isBlock_of_blockRun`), because every way to recover from a fault reports it.
-/

namespace MiniPL.Parser

open Grammar

/-! ### Blocks of the grammar are read -/

section
variable {inLoop : Bool} {s : State} {tokens rest : List Token}

/-- A statement without a body is put in front of what the rest of the block gives. -/
theorem blockRun_of_isSimple {v : Statement} {types : TypeTable}
    (h : IsSimple s.types tokens v types) (hrest : s.rest = tokens ++ rest) :
    blockRun inLoop s =
      (v :: (blockRun inLoop (s.moveTo rest types)).1,
        (blockRun inLoop (s.moveTo rest types)).2) := by
  obtain ⟨form, first, following, rfl, hform, hreads⟩ := reads_of_isSimple h
  have hstatement := (hreads (s.skipTo (following ++ rest)) rest rfl rfl).1
  rw [List.cons_append] at hrest
  rw [blockRun_of_form hrest hform, hstatement]
  rfl

theorem reads_of_isHeader {types : TypeTable} {counter : Identifier} {start stop : Expr}
    (h : IsHeader types tokens counter start stop) (hs : s.types = types)
    (hrest : s.rest = tokens ++ rest) :
    Rule.loopHeader.Reads s ⟨counter, start, stop⟩ (s.skipTo rest) := by
  subst hs
  cases h with
  | @mk name within range «do» first last start stop hname hin hstart hrange hstop hdo =>
    simp only [List.cons_append, List.append_assoc, List.nil_append] at hrest
    refine Rule.reads_loopHeader_iff.2 ⟨name, within, _, s.skipTo (range :: (last ++ «do» :: rest)),
      range, _, s.skipTo («do» :: rest), «do», rest, hrest, hname, hin, ?_, rfl, hrange, ?_, rfl,
      hdo, rfl, rfl⟩
    · exact reads_expr_of_derives hstart rfl rfl (by rw [hrange]; decide)
    · exact reads_expr_of_derives hstop rfl rfl (by rw [hdo]; decide)

/-- A loop with a header of the grammar is put in front of what the rest of the block gives, if its
body comes to the end of the loop. -/
theorem blockRun_of_isHeader {«for» : Token} {header inner ending : List Token}
    {counter : Identifier} {start stop : Expr} {body : Block} {u : State}
    (hfor : «for».kind = .keyword .for) (hheader : IsHeader s.types header counter start stop)
    (hrest : s.rest = «for» :: (header ++ inner))
    (hbody : blockRun true (s.skipTo inner) = (body, u)) (hend : IsEnd ending)
    (hu : u.rest = ending ++ rest) :
    blockRun inLoop s =
      (.loop counter start stop body :: (blockRun inLoop (u.skipTo rest)).1,
        (blockRun inLoop (u.skipTo rest)).2) := by
  cases hend with
  | @mk «end» for' semicolon hend hfor' hsemicolon =>
    have hreads := reads_of_isHeader (s := s.skipTo (header ++ inner)) hheader rfl rfl
    have hloopEnd : Rule.loopEnd.Reads u () (u.skipTo (semicolon :: rest)) :=
      Rule.reads_loopEnd_iff.2 ⟨«end», for', _, hu, hend, hfor', rfl⟩
    have hstatement : (Rule.statement .loop «for»).run (s.skipTo (header ++ inner)) =
        .ok (.loop counter start stop body) (u.skipTo rest) := by
      rw [Rule.run_statement, Rule.run_bind, StatementForm.rule, Rule.run_loop, hreads.1]
      dsimp only
      rw [State.skipTo_skipTo, hbody]
      dsimp only
      rw [hloopEnd.1]
      dsimp only
      rw [Rule.run_bind, Rule.run_expect, State.current_eq rfl, if_pos hsemicolon]
      rfl
    rw [blockRun_of_form hrest (show _ = StatementForm.loop.kind from hfor), hstatement]

end

/-- A block of the grammar is read with its statements, whatever follows. -/
theorem blockRun_of_isBlock {types types' : TypeTable} {tokens : List Token} {b : Block}
    (h : IsBlock types tokens b types') :
    ∀ (inLoop : Bool) (s : State) (rest : List Token), s.types = types → s.rest = tokens ++ rest →
      blockRun inLoop s =
        (b ++ (blockRun inLoop (s.moveTo rest types')).1,
          (blockRun inLoop (s.moveTo rest types')).2) := by
  induction h with
  | nil =>
    rintro inLoop s rest rfl hrest
    have hs : s.moveTo rest s.types = s := by
      cases s
      obtain rfl := hrest
      rfl
    rw [hs]
    rfl
  | simple h _ ih =>
    rintro inLoop s rest rfl hrest
    rw [List.append_assoc] at hrest
    rw [blockRun_of_isSimple h hrest, ih inLoop (s.moveTo _ _) rest rfl rfl]
    rfl
  | @loop types types' types'' «for» header inner ending after counter start stop body b hfor
      hheader _ hend _ ihbody ih =>
    rintro inLoop s rest rfl hrest
    simp only [List.cons_append, List.append_assoc] at hrest
    have hbody : blockRun true (s.skipTo (inner ++ (ending ++ (after ++ rest)))) =
        (body, (s.moveTo (ending ++ (after ++ rest)) types')) := by
      rw [ihbody true (s.skipTo (inner ++ (ending ++ (after ++ rest)))) _ rfl rfl]
      cases hend with
      | mk hend _ _ =>
        rw [blockRun_of_end rfl hend, List.append_nil]
        rfl
    rw [blockRun_of_isHeader hfor hheader hrest hbody hend rfl, State.skipTo_moveTo,
      ih inLoop (s.moveTo (after ++ rest) types') rest rfl rfl]
    rfl

/-! ### What is read without a report is a block of the grammar -/

/-- A diagnostic that was reported stays. -/
theorem diagnostics_ne_of_reaches_report {s t : State} {fault : Diagnostic}
    (h : (s.report fault).Reaches t) : t.diagnostics ≠ s.diagnostics := by
  intro heq
  have hlength := h.diagnostics.length_le
  rw [heq, State.diagnostics_report, List.length_append, List.length_singleton] at hlength
  omega

/-- A block that reports nothing ends, or starts with a statement read without a report. -/
theorem blockRun_clean_cons {inLoop : Bool} {s : State} {token : Token} {rest : List Token}
    (hrest : s.rest = token :: rest)
    (hclean : (blockRun inLoop s).2.diagnostics = s.diagnostics) :
    (inLoop = true ∧ token.kind = .keyword .end ∧ blockRun inLoop s = ([], s)) ∨
      ∃ form v t, token.kind = StatementForm.kind form ∧
        (Rule.statement form token).Reads (s.skipTo rest) v t ∧
        blockRun inLoop s = (v :: (blockRun inLoop t).1, (blockRun inLoop t).2) ∧
        (blockRun inLoop t).2.diagnostics = t.diagnostics := by
  rw [blockRun_of_cons hrest] at hclean ⊢
  by_cases hend : inLoop = true ∧ token.kind = .keyword .end
  · rw [if_pos hend]
    exact .inl ⟨hend.1, hend.2, rfl⟩
  rw [if_neg hend] at hclean ⊢
  by_cases hunknown : token.kind = .unknown
  · rw [if_pos hunknown] at hclean
    have hsuffix : rest <:+ (s.report (.unclassified token)).rest := by
      rw [State.rest_report, hrest]
      exact List.suffix_cons _ _
    have hreaches := (State.reaches_skipTo _ hsuffix).trans (reaches_blockRun inLoop _)
    exact absurd hclean (diagnostics_ne_of_reaches_report hreaches)
  rw [if_neg hunknown] at hclean ⊢
  cases hform : StatementForm.ofKind? token.kind with
  | none =>
    rw [hform] at hclean
    dsimp only at hclean
    split at hclean
    · exact absurd hclean (diagnostics_ne_of_reaches_report (.refl _))
    · exact absurd hclean (diagnostics_ne_of_reaches_report
        ((State.reaches_synchronize _).trans (reaches_blockRun inLoop _)))
  | some form =>
    rw [hform] at hclean
    dsimp only at hclean ⊢
    cases hrun : (Rule.statement form token).run (s.skipTo rest) with
    | error fault t =>
      rw [hrun] at hclean
      have hst := (Rule.reaches_of_run_error hrun).diagnostics
      have hreaches :=
        (State.reaches_synchronize (t.report fault)).trans (reaches_blockRun inLoop _)
      have hlength := hreaches.diagnostics.length_le
      have hle : s.diagnostics.length ≤ t.diagnostics.length := hst.length_le
      rw [hclean, State.diagnostics_report, List.length_append, List.length_singleton] at hlength
      omega
    | ok v t =>
      rw [hrun] at hclean
      dsimp only at hclean ⊢
      have hst := (Rule.reaches_of_run_ok hrun).diagnostics
      have htu := (reaches_blockRun inLoop t).diagnostics
      rw [hclean] at htu
      have hts : t.diagnostics = s.diagnostics := htu.eq_of_length_le hst.length_le
      exact .inr ⟨form, v, t, StatementForm.kind_of_ofKind? hform, ⟨hrun, hts⟩, rfl,
        hclean.trans hts.symm⟩

theorem reads_loop {s t : State} {v : Statement} (h : Rule.loop.Reads s v t) :
    ∃ header u, Rule.loopHeader.Reads s header u ∧
      (blockRun true u).2.diagnostics = u.diagnostics ∧
      Rule.loopEnd.Reads (blockRun true u).2 () t ∧
      v = .loop header.counter header.start header.stop (blockRun true u).1 := by
  obtain ⟨hrun, hdiag⟩ := h
  rw [Rule.run_loop] at hrun
  cases hheader : Rule.loopHeader.run s with
  | error fault u => rw [hheader] at hrun; cases hrun
  | ok header u =>
    rw [hheader] at hrun
    dsimp only at hrun
    cases hend : Rule.loopEnd.run (blockRun true u).2 with
    | error fault w => rw [hend] at hrun; cases hrun
    | ok value w =>
      rw [hend] at hrun
      cases hrun
      have hsu := (Rule.reaches_of_run_ok hheader).diagnostics
      have hub := (reaches_blockRun true u).diagnostics
      have hbt := (Rule.reaches_of_run_ok hend).diagnostics
      rw [hdiag] at hbt
      have hbs := hbt.eq_of_length_le (hsu.trans hub).length_le
      rw [hbs] at hub
      have hus := hub.eq_of_length_le hsu.length_le
      exact ⟨header, u, ⟨hheader, hus⟩, hbs.trans hus.symm, ⟨hend, hdiag.trans hbs.symm⟩, rfl⟩

theorem isHeader_of_reads {s t : State} {header : LoopHeader} (hs : s.Numerals)
    (h : Rule.loopHeader.Reads s header t) :
    ∃ tokens, s.Behind tokens t ∧
      IsHeader s.types tokens header.counter header.start header.stop := by
  obtain ⟨name, within, rest, u, range, rest', w, «do», rest'', hrest, hname, hin, hstart, hu,
    hrange, hstop, hw, hdo, hcounter, rfl⟩ := Rule.reads_loopHeader_iff.1 h
  have hsuffix : rest <:+ s.rest := ⟨[name, within], hrest.symm⟩
  obtain ⟨first, hfirst, hderives⟩ := derives_of_reads_expr hstart (hs.of_suffix hsuffix)
  have hrest' : rest = first ++ range :: rest' := hfirst.1.trans (by rw [hu])
  have hsuffix' : rest' <:+ s.rest := by
    refine List.IsSuffix.trans ⟨first ++ [range], ?_⟩ hsuffix
    rw [hrest', List.append_assoc]
    rfl
  obtain ⟨last, hlast, hderives'⟩ := derives_of_reads_expr hstop (hs.of_suffix hsuffix')
  have hrest'' : rest' = last ++ «do» :: rest'' := hlast.1.trans (by rw [hw])
  have hutypes : u.types = s.types := hfirst.2
  have hwtypes : w.types = u.types := hlast.2
  refine ⟨name :: within :: first ++ range :: last ++ [«do»], ⟨?_, ?_⟩, ?_⟩
  · rw [hrest, hrest', hrest'']
    simp only [State.rest_skipTo, List.cons_append, List.append_assoc, List.nil_append]
  · rw [State.types_skipTo, hwtypes, hutypes]
  · rw [State.types_skipTo, hutypes] at hderives'
    rw [hcounter]
    exact .mk hname hin hderives hrange hderives' hdo

/-- A block that reports nothing is a block of the grammar, and ends at the end of the input or,
inside a loop, in front of `end`. -/
theorem isBlock_of_blockRun (inLoop : Bool) (s : State) (hs : s.Numerals)
    (hclean : (blockRun inLoop s).2.diagnostics = s.diagnostics) :
    ∃ tokens, s.rest = tokens ++ (blockRun inLoop s).2.rest ∧
      IsBlock s.types tokens (blockRun inLoop s).1 (blockRun inLoop s).2.types ∧
      ((blockRun inLoop s).2.rest = [] ∨ inLoop = true) := by
  cases hrest : s.rest with
  | nil =>
    rw [blockRun_of_nil hrest]
    exact ⟨[], by rw [hrest]; rfl, .nil, .inl hrest⟩
  | cons token rest =>
    rcases blockRun_clean_cons hrest hclean with
      ⟨hloop, -, hrun⟩ | ⟨form, v, t, hform, hreads, hrun, hclean'⟩
    · rw [hrun]
      exact ⟨[], hrest.symm, .nil, .inr hloop⟩
    have hs' : (s.skipTo rest).Numerals := hs.of_suffix (hrest ▸ List.suffix_cons _ _)
    have hst := Rule.reaches_of_run_ok hreads.1
    have hlength : t.rest.length < s.rest.length := by
      have hle : t.rest.length ≤ rest.length := hst.length_le
      rw [hrest, List.length_cons]
      omega
    obtain ⟨after, hafter, hblock, hstop⟩ :=
      isBlock_of_blockRun inLoop t (hs'.of_suffix hst.rest) hclean'
    rw [hrun]
    by_cases hloop : form = .loop
    · subst hloop
      obtain ⟨u, hu, semicolon, rest', hsemicolon, hkind, rfl⟩ := Rule.reads_statement_iff.1 hreads
      obtain ⟨header, w, hheader, hbody, hend, rfl⟩ := reads_loop hu
      obtain ⟨tokens, hbehind, hisHeader⟩ := isHeader_of_reads hs' hheader
      have hwlength : w.rest.length < s.rest.length := by
        have hle : w.rest.length ≤ rest.length := (Rule.reaches_of_run_ok hheader.1).length_le
        rw [hrest, List.length_cons]
        omega
      obtain ⟨inner, hinner, hisBlock, -⟩ :=
        isBlock_of_blockRun true w (hs'.of_behind hbehind) hbody
      obtain ⟨«end», «for», rest'', hending, hend', hfor', rfl⟩ := Rule.reads_loopEnd_iff.1 hend
      obtain rfl : rest'' = semicolon :: rest' := hsemicolon
      refine ⟨token :: tokens ++ inner ++ [«end», «for», semicolon] ++ after, ?_, ?_, hstop⟩
      · have hrest' : after ++ _ = rest' := hafter.symm
        have hrest'' : rest = tokens ++ w.rest := hbehind.1
        rw [hrest'', hinner, hending]
        simp only [List.cons_append, List.append_assoc, List.nil_append, hrest']
      · have htypes : w.types = s.types := hbehind.2
        rw [htypes] at hisBlock
        exact .loop hform hisHeader hisBlock (.mk hend' hfor' hkind) hblock
    · obtain ⟨tokens, htokens, hsimple⟩ := isSimple_of_reads hform hloop hs' hreads
      refine ⟨token :: tokens ++ after, ?_, .simple hsimple hblock, hstop⟩
      have hrest' : rest = tokens ++ t.rest := htokens
      rw [hrest', hafter]
      simp only [List.cons_append, List.append_assoc]
termination_by s.rest.length

/-! ### Texts -/

/-- Reading a text is reading its tokens. -/
theorem parseText_eq (text : String) (types : TypeTable) :
    parseText text types = parseTokens (tokenize text) types :=
  congrArg (parseTokens · types) (TokenStream.drain_lexer (.ofText text))

/-- Where no token ends the input, all of them are there to be read. -/
theorem State.rest_initial {types : TypeTable} {tokens : List Token}
    (h : ∀ token ∈ tokens, token.kind ≠ .eof) : (State.initial types tokens).rest = tokens := by
  have hall : ∀ token ∈ tokens, (token.kind != .eof) = true :=
    fun token htoken => bne_iff_ne.2 (h token htoken)
  have happend := @List.takeWhile_append_of_pos _ (·.kind != .eof) tokens [] hall
  rwa [List.append_nil, List.takeWhile_nil, List.append_nil] at happend

/-- The state in front of a text holds all of its tokens. -/
theorem State.rest_initial_tokenize (types : TypeTable) (text : String) :
    (State.initial types (tokenize text)).rest = tokenize text :=
  rest_initial fun _ => Lexer.kind_ne_eof_of_mem_tokenize

/-- The integer literals of a text are runs of digits. -/
theorem State.numerals_initial (types : TypeTable) (text : String) :
    (State.initial types (tokenize text)).Numerals := by
  intro token htoken hkind
  rw [rest_initial_tokenize] at htoken
  obtain ⟨hne, hdigits⟩ := Lexer.digits_of_mem_tokenize htoken hkind
  unfold Token.number? Text.Decimal.natural?
  rw [List.all_eq_true.2 hdigits, List.isEmpty_eq_false_iff.2 hne]
  rfl

/-- A block of the grammar is read to the end of the input. -/
theorem blockRun_initial_of_isBlock {types types' : TypeTable} {tokens : List Token} {b : Block}
    (h : IsBlock types tokens b types') :
    blockRun false (.initial types tokens) =
      (b, (State.initial types tokens).moveTo [] types') := by
  have hrest : (State.initial types tokens).rest = tokens ++ [] := by
    rw [State.rest_initial h.kind_ne_eof, List.append_nil]
  rw [blockRun_of_isBlock h false _ [] rfl hrest, blockRun_of_nil rfl, List.append_nil]

/-- A text gives a clean program exactly when its tokens are a program of the grammar, and then its
statements are those of the grammar and no token is left. -/
theorem parseText_isClean_iff (text : String) :
    ((parseText text).isClean = true ↔ ∃ b, IsProgram (tokenize text) b) ∧
      ∀ b, IsProgram (tokenize text) b →
        (parseText text).program.statements = b ∧
          (block false (.initial .empty (tokenize text))).after.rest = [] := by
  have hread : ∀ b, IsProgram (tokenize text) b → ∃ types,
      blockRun false (.initial .empty (tokenize text)) =
        (b, (State.initial .empty (tokenize text)).moveTo [] types) :=
    fun b ⟨types, h⟩ => ⟨types, blockRun_initial_of_isBlock h⟩
  rw [parseText_eq]
  refine ⟨⟨fun hclean => ?_, fun ⟨b, h⟩ => ?_⟩, fun b h => ?_⟩
  · obtain ⟨tokens, hrest, hblock, hend⟩ :=
      isBlock_of_blockRun false _ (State.numerals_initial .empty text) (List.isEmpty_iff.1 hclean)
    rw [State.rest_initial_tokenize, hend.resolve_right Bool.false_ne_true,
      List.append_nil] at hrest
    subst hrest
    exact ⟨_, _, hblock⟩
  · obtain ⟨types, hrun⟩ := hread b h
    exact List.isEmpty_iff.2 (congrArg (fun run => run.2.diagnostics) hrun)
  · obtain ⟨types, hrun⟩ := hread b h
    exact ⟨congrArg Prod.fst hrun, congrArg (fun run => run.2.rest) hrun⟩

/-- The statements of a clean program are a block of the grammar. -/
theorem isBlock_of_isClean {text : String} {types : TypeTable}
    (h : (parseText text types).isClean = true) :
    ∃ types', IsBlock types (tokenize text) (parseText text types).program.statements types' := by
  rw [parseText_eq] at h ⊢
  obtain ⟨tokens, hrest, hblock, hend⟩ :=
    isBlock_of_blockRun false _ (State.numerals_initial types text) (List.isEmpty_iff.1 h)
  rw [State.rest_initial_tokenize, hend.resolve_right Bool.false_ne_true,
    List.append_nil] at hrest
  subst hrest
  exact ⟨_, hblock⟩

/-- A block of the grammar is read as a clean program. -/
theorem parseTokens_of_isBlock {tokens : List Token} {types types' : TypeTable} {b : Block}
    (h : IsBlock types tokens b types') : parseTokens tokens types = ⟨⟨b⟩, []⟩ := by
  have hrun := blockRun_initial_of_isBlock h
  show ParseResult.mk ⟨(blockRun false _).1⟩ (blockRun false _).2.diagnostics = _
  rw [hrun]
  rfl

theorem parseText_of_isBlock {text : String} {types types' : TypeTable} {b : Block}
    (h : IsBlock types (tokenize text) b types') : parseText text types = ⟨⟨b⟩, []⟩ :=
  (parseText_eq text types).trans (parseTokens_of_isBlock h)

end MiniPL.Parser
