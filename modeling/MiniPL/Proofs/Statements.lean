import MiniPL.Proofs.Expressions

/-!
# Reading statements

The readings of each form of statement without a report, and from them both directions between the
rules of statements without a body and the grammar: `reads_of_isSimple` and `isSimple_of_reads`.
-/

namespace MiniPL.Parser

open Grammar

namespace Rule

variable {s t : State} {v : Statement}

/-! ### The parts of each form -/

theorem reads_statement_iff {form : StatementForm} {first : Token} :
    (statement form first).Reads s v t ↔
      ∃ u, (form.rule first).Reads s v u ∧
        ∃ semicolon rest, u.rest = semicolon :: rest ∧ semicolon.kind = .semicolon ∧
          t = u.skipTo rest := by
  rw [reads_congr (run_statement form first s), reads_bind_iff]
  constructor
  · rintro ⟨value, u, hvalue, hrest⟩
    obtain ⟨semicolon, w, hexpect, hpure⟩ := reads_bind_iff.1 hrest
    obtain ⟨rfl, rfl⟩ := reads_pure_iff.1 hpure
    obtain ⟨rest, hu, hkind, hw⟩ := (reads_expect_iff (by decide)).1 hexpect
    exact ⟨u, hvalue, semicolon, rest, hu, hkind, hw⟩
  · rintro ⟨u, hvalue, semicolon, rest, hu, hkind, rfl⟩
    refine ⟨v, u, hvalue, reads_bind_iff.2 ⟨semicolon, u.skipTo rest, ?_, ?_⟩⟩
    · exact (reads_expect_iff (by decide)).2 ⟨rest, hu, hkind, rfl⟩
    · exact reads_pure_iff.2 ⟨rfl, rfl⟩

theorem reads_identifier_iff {identifier : Identifier} :
    Rule.identifier.Reads s identifier t ↔
      ∃ name rest, s.rest = name :: rest ∧ name.kind = .identifier ∧
        identifier = name.mention s.types ∧ t = s.skipTo rest := by
  unfold Rule.identifier
  rw [reads_bind_iff]
  constructor
  · rintro ⟨name, u, hexpect, hreference⟩
    obtain ⟨rest, hrest, hname, rfl⟩ := (reads_expect_iff (by decide)).1 hexpect
    obtain ⟨rfl, rfl⟩ := reads_reference_iff.1 hreference
    exact ⟨name, rest, hrest, hname, rfl, rfl⟩
  · rintro ⟨name, rest, hrest, hname, rfl, rfl⟩
    refine ⟨name, s.skipTo rest, ?_, reads_reference_iff.2 ⟨rfl, rfl⟩⟩
    exact (reads_expect_iff (by decide)).2 ⟨rest, hrest, hname, rfl⟩

theorem run_typeName (s : State) :
    typeName.run s =
      match s.current.kind with
      | .keyword .int => .ok .int s.advance
      | .keyword .string => .ok .string s.advance
      | .keyword .bool => .ok .bool s.advance
      | _ => .error (.unexpected .typeName s.current) s := by
  unfold typeName
  rw [run_bind, run_current]
  dsimp only
  cases s.current.kind with
  | keyword keyword => cases keyword <;> rfl
  | _ => rfl

theorem reads_typeName_iff {ty : ValueType} :
    typeName.Reads s ty t ↔
      ∃ name rest, s.rest = name :: rest ∧ name.kind = .keyword ty.keyword ∧
        t = s.skipTo rest := by
  constructor
  · rintro ⟨hrun, -⟩
    rw [run_typeName] at hrun
    split at hrun <;> cases hrun
    all_goals
      rename_i hkind
      obtain ⟨rest, hrest, hadvance⟩ := State.rest_eq_of_kind hkind (by decide)
      exact ⟨_, rest, hrest, hkind, hadvance⟩
  · rintro ⟨name, rest, hrest, hkind, rfl⟩
    refine ⟨?_, rfl⟩
    rw [run_typeName, State.current_eq hrest, hkind, State.advance_eq hrest]
    cases ty <;> rfl

theorem run_initializer (s : State) :
    initializer.run s =
      if s.current.kind = .assign then (do return some (← expr)).run s.advance
      else .ok none s := by
  unfold initializer
  rw [run_bind, run_current]
  dsimp only
  split
  · exact run_bind advance _ s
  · rfl

theorem reads_initializer_iff {value : Option Expr} :
    initializer.Reads s value t ↔
      (s.current.kind ≠ .assign ∧ value = none ∧ t = s) ∨
        ∃ assign rest e, s.rest = assign :: rest ∧ assign.kind = .assign ∧ value = some e ∧
          expr.Reads (s.skipTo rest) e t := by
  constructor
  · rintro ⟨hrun, hdiag⟩
    rw [run_initializer] at hrun
    split at hrun
    · rename_i hkind
      obtain ⟨rest, hrest, hadvance⟩ := State.rest_eq_of_kind hkind (by decide)
      rw [hadvance] at hrun
      obtain ⟨e, u, he, hpure⟩ := reads_bind_iff.1 ⟨hrun, hdiag⟩
      obtain ⟨rfl, rfl⟩ := reads_pure_iff.1 hpure
      exact .inr ⟨_, rest, e, hrest, hkind, rfl, he⟩
    · rename_i hkind
      cases hrun
      exact .inl ⟨hkind, rfl, rfl⟩
  · rintro (⟨hkind, rfl, rfl⟩ | ⟨assign, rest, e, hrest, hkind, rfl, he⟩)
    · refine ⟨?_, rfl⟩
      rw [run_initializer, if_neg hkind]
    · have hreads :
          (do return some (← expr) : Rule (Option Expr)).Reads (s.skipTo rest) (some e) t :=
        reads_bind_iff.2 ⟨e, t, he, reads_pure_iff.2 ⟨rfl, rfl⟩⟩
      refine ⟨?_, hreads.2⟩
      rw [run_initializer, State.current_eq hrest, if_pos hkind, State.advance_eq hrest]
      exact hreads.1

theorem reads_declaration_iff :
    Rule.declaration.Reads s v t ↔
      ∃ name colon typeName rest ty value, s.rest = name :: colon :: typeName :: rest ∧
        name.kind = .identifier ∧ colon.kind = .colon ∧ typeName.kind = .keyword ty.keyword ∧
        initializer.Reads ((s.skipTo rest).declare name.lexeme ty) value t ∧
        v = .declaration name.lexeme name.position ty value := by
  unfold Rule.declaration
  simp (disch := decide) only [reads_bind_iff, reads_expect_iff, reads_typeName_iff,
    reads_declare_iff, reads_pure_iff]
  constructor
  · rintro ⟨name, _, ⟨rest, hrest, hname, rfl⟩, colon, _, ⟨rest', hrest', hcolon, rfl⟩,
      ty, _, ⟨typeName, rest'', hrest'', htype, rfl⟩, _, _, rfl, value, _, hvalue, rfl, rfl⟩
    obtain rfl : rest = colon :: rest' := hrest'
    obtain rfl : rest' = typeName :: rest'' := hrest''
    exact ⟨name, colon, typeName, rest'', ty, value, hrest, hname, hcolon, htype, hvalue, rfl⟩
  · rintro ⟨name, colon, typeName, rest, ty, value, hrest, hname, hcolon, htype, hvalue, rfl⟩
    exact ⟨name, _, ⟨_, hrest, hname, rfl⟩, colon, _, ⟨_, rfl, hcolon, rfl⟩,
      ty, _, ⟨typeName, rest, rfl, htype, rfl⟩, (), _, rfl, value, t, hvalue, rfl, rfl⟩

theorem reads_assignment_iff {target : Token} :
    (Rule.assignment target).Reads s v t ↔
      ∃ assign rest e, s.rest = assign :: rest ∧ assign.kind = .assign ∧
        expr.Reads (s.skipTo rest) e t ∧ v = .assignment (target.mention s.types) e := by
  unfold Rule.assignment
  simp (disch := decide) only [reads_bind_iff, reads_expect_iff, reads_reference_iff,
    reads_pure_iff]
  constructor
  · rintro ⟨_, _, ⟨rfl, rfl⟩, assign, _, ⟨rest, hrest, hassign, rfl⟩, e, _, he, rfl, rfl⟩
    exact ⟨assign, rest, e, hrest, hassign, he, rfl⟩
  · rintro ⟨assign, rest, e, hrest, hassign, he, rfl⟩
    exact ⟨_, s, ⟨rfl, rfl⟩, assign, _, ⟨rest, hrest, hassign, rfl⟩, e, t, he, rfl, rfl⟩

theorem reads_print_iff {keyword : Token} :
    (Rule.print keyword).Reads s v t ↔
      ∃ e, expr.Reads s e t ∧ v = .print e keyword.position := by
  unfold Rule.print
  simp only [reads_bind_iff, reads_pure_iff]
  constructor
  · rintro ⟨e, _, he, rfl, rfl⟩
    exact ⟨e, he, rfl⟩
  · rintro ⟨e, he, rfl⟩
    exact ⟨e, t, he, rfl, rfl⟩

theorem reads_read_iff :
    Rule.read.Reads s v t ↔
      ∃ name rest, s.rest = name :: rest ∧ name.kind = .identifier ∧
        v = .read (name.mention s.types) ∧ t = s.skipTo rest := by
  unfold Rule.read
  simp only [reads_bind_iff, reads_identifier_iff, reads_pure_iff]
  constructor
  · rintro ⟨_, _, ⟨name, rest, hrest, hname, rfl, rfl⟩, rfl, rfl⟩
    exact ⟨name, rest, hrest, hname, rfl, rfl⟩
  · rintro ⟨name, rest, hrest, hname, rfl, rfl⟩
    exact ⟨_, _, ⟨name, rest, hrest, hname, rfl, rfl⟩, rfl, rfl⟩

theorem reads_assertion_iff {keyword : Token} :
    (Rule.assertion keyword).Reads s v t ↔
      ∃ opening rest e u closing rest', s.rest = opening :: rest ∧ opening.kind = .leftParen ∧
        expr.Reads (s.skipTo rest) e u ∧ u.rest = closing :: rest' ∧
        closing.kind = .rightParen ∧ v = .assert e keyword.position ∧ t = u.skipTo rest' := by
  unfold Rule.assertion
  simp (disch := decide) only [reads_bind_iff, reads_expect_iff, reads_pure_iff]
  constructor
  · rintro ⟨opening, _, ⟨rest, hrest, hopening, rfl⟩, e, u, he, closing, _,
      ⟨rest', hrest', hclosing, rfl⟩, rfl, rfl⟩
    exact ⟨opening, rest, e, u, closing, rest', hrest, hopening, he, hrest', hclosing, rfl, rfl⟩
  · rintro ⟨opening, rest, e, u, closing, rest', hrest, hopening, he, hrest', hclosing, rfl, rfl⟩
    exact ⟨opening, _, ⟨rest, hrest, hopening, rfl⟩, e, u, he, closing, _,
      ⟨rest', hrest', hclosing, rfl⟩, rfl, rfl⟩

theorem reads_loopHeader_iff {header : LoopHeader} :
    loopHeader.Reads s header t ↔
      ∃ name within rest u range rest' w «do» rest'', s.rest = name :: within :: rest ∧
        name.kind = .identifier ∧ within.kind = .keyword .in ∧
        expr.Reads (s.skipTo rest) header.start u ∧ u.rest = range :: rest' ∧
        range.kind = .range ∧ expr.Reads (u.skipTo rest') header.stop w ∧
        w.rest = «do» :: rest'' ∧ «do».kind = .keyword .do ∧
        header.counter = name.mention s.types ∧ t = w.skipTo rest'' := by
  unfold loopHeader
  simp (disch := decide) only [reads_bind_iff, reads_expect_iff, reads_identifier_iff,
    reads_pure_iff]
  constructor
  · rintro ⟨_, _, ⟨name, after, hname', hname, rfl, rfl⟩, within, _, ⟨rest, hwithin, hin, rfl⟩,
      start, u, hstart, range, _, ⟨rest', hrest', hrange, rfl⟩, stop, w, hstop, «do», _,
      ⟨rest'', hrest'', hdo, rfl⟩, rfl, rfl⟩
    obtain rfl : after = within :: rest := hwithin
    exact ⟨name, within, rest, u, range, rest', w, «do», rest'', hname', hname, hin, hstart,
      hrest', hrange, hstop, hrest'', hdo, rfl, rfl⟩
  · rintro ⟨name, within, rest, u, range, rest', w, «do», rest'', hrest, hname, hin, hstart, hu,
      hrange, hstop, hw, hdo, hcounter, rfl⟩
    obtain ⟨counter, start, stop⟩ := header
    obtain rfl := hcounter
    exact ⟨_, _, ⟨name, _, hrest, hname, rfl, rfl⟩, within, _, ⟨rest, rfl, hin, rfl⟩,
      start, u, hstart, range, _, ⟨rest', hu, hrange, rfl⟩, stop, w, hstop, «do», _,
      ⟨rest'', hw, hdo, rfl⟩, rfl, rfl⟩

theorem reads_loopEnd_iff {value : Unit} :
    loopEnd.Reads s value t ↔
      ∃ «end» «for» rest, s.rest = «end» :: «for» :: rest ∧ «end».kind = .keyword .end ∧
        «for».kind = .keyword .for ∧ t = s.skipTo rest := by
  unfold loopEnd
  simp (disch := decide) only [reads_bind_iff, reads_expect_iff, reads_pure_iff]
  constructor
  · rintro ⟨«end», _, ⟨rest, hrest, hend, rfl⟩, «for», _, ⟨rest', hrest', hfor, rfl⟩, -, rfl⟩
    obtain rfl : rest = «for» :: rest' := hrest'
    exact ⟨«end», «for», rest', hrest, hend, hfor, rfl⟩
  · rintro ⟨«end», «for», rest, hrest, hend, hfor, rfl⟩
    exact ⟨«end», _, ⟨_, hrest, hend, rfl⟩, «for», _, ⟨rest, rfl, hfor, rfl⟩, trivial, rfl⟩

end Rule

/-! ### Statements without a body -/

/-- The state in front of later tokens, with the types known there. -/
def State.moveTo (s : State) (rest : List Token) (types : TypeTable) : State :=
  { s with rest, types }

@[simp] theorem State.skipTo_moveTo (s : State) (rest rest' : List Token) (types : TypeTable) :
    (s.moveTo rest types).skipTo rest' = s.moveTo rest' types := rfl

/-- Behind its first token, a statement without a body is read from any tokens that start with
it. -/
theorem reads_of_isSimple {types types' : TypeTable} {tokens : List Token} {v : Statement}
    (h : IsSimple types tokens v types') :
    ∃ form first following, tokens = first :: following ∧ first.kind = StatementForm.kind form ∧
      ∀ (s : State) (rest : List Token), s.types = types → s.rest = following ++ rest →
        (Rule.statement form first).Reads s v (s.moveTo rest types') := by
  cases h with
  | @declaration var name colon typeName semicolon ty hvar hname hcolon htype hsemicolon =>
    refine ⟨.declaration, var, _, rfl, hvar, ?_⟩
    rintro s rest rfl hrest
    refine Rule.reads_statement_iff.2 ⟨(s.skipTo (semicolon :: rest)).declare name.lexeme ty, ?_,
      semicolon, rest, rfl, hsemicolon, rfl⟩
    refine Rule.reads_declaration_iff.2 ⟨name, colon, typeName, semicolon :: rest, ty, none, hrest,
      hname, hcolon, htype, Rule.reads_initializer_iff.2 (.inl ⟨?_, rfl, rfl⟩), rfl⟩
    rw [State.current_eq rfl, hsemicolon]
    decide
  | @initialized var name colon typeName assign semicolon ty tokens e hvar hname hcolon htype
      hassign he hsemicolon =>
    refine ⟨.declaration, var, name :: colon :: typeName :: assign :: (tokens ++ [semicolon]),
      rfl, hvar, ?_⟩
    rintro s rest rfl hrest
    simp only [List.cons_append, List.append_assoc, List.nil_append] at hrest
    refine Rule.reads_statement_iff.2 ⟨(s.skipTo (semicolon :: rest)).declare name.lexeme ty, ?_,
      semicolon, rest, rfl, hsemicolon, rfl⟩
    refine Rule.reads_declaration_iff.2 ⟨name, colon, typeName, _, ty, some e, hrest,
      hname, hcolon, htype, Rule.reads_initializer_iff.2 (.inr ⟨assign, _, e, rfl, hassign, rfl,
        ?_⟩), rfl⟩
    exact reads_expr_of_derives he rfl rfl (by rw [hsemicolon]; decide)
  | @assignment name assign semicolon tokens e hname hassign he hsemicolon =>
    refine ⟨.assignment, name, assign :: (tokens ++ [semicolon]), rfl, hname, ?_⟩
    rintro s rest rfl hrest
    simp only [List.cons_append, List.append_assoc, List.nil_append] at hrest
    refine Rule.reads_statement_iff.2 ⟨s.skipTo (semicolon :: rest), ?_, semicolon, rest, rfl,
      hsemicolon, rfl⟩
    refine Rule.reads_assignment_iff.2 ⟨assign, _, e, hrest, hassign, ?_, rfl⟩
    exact reads_expr_of_derives he rfl rfl (by rw [hsemicolon]; decide)
  | @print print semicolon tokens e hprint he hsemicolon =>
    refine ⟨.print, print, tokens ++ [semicolon], rfl, hprint, ?_⟩
    rintro s rest rfl hrest
    simp only [List.append_assoc, List.cons_append, List.nil_append] at hrest
    refine Rule.reads_statement_iff.2 ⟨s.skipTo (semicolon :: rest), ?_, semicolon, rest, rfl,
      hsemicolon, rfl⟩
    refine Rule.reads_print_iff.2 ⟨e, ?_, rfl⟩
    exact reads_expr_of_derives he rfl hrest (by rw [hsemicolon]; decide)
  | @read read name semicolon hread hname hsemicolon =>
    refine ⟨.read, read, _, rfl, hread, ?_⟩
    rintro s rest rfl hrest
    refine Rule.reads_statement_iff.2 ⟨s.skipTo (semicolon :: rest), ?_, semicolon, rest, rfl,
      hsemicolon, rfl⟩
    exact Rule.reads_read_iff.2 ⟨name, _, hrest, hname, rfl, rfl⟩
  | @assert assert opening closing semicolon tokens e hassert hopening he hclosing hsemicolon =>
    refine ⟨.assertion, assert, opening :: (tokens ++ [closing, semicolon]), rfl, hassert, ?_⟩
    rintro s rest rfl hrest
    simp only [List.cons_append, List.append_assoc, List.nil_append] at hrest
    refine Rule.reads_statement_iff.2 ⟨s.skipTo (semicolon :: rest), ?_, semicolon, rest, rfl,
      hsemicolon, rfl⟩
    refine Rule.reads_assertion_iff.2 ⟨opening, _, e, s.skipTo (closing :: semicolon :: rest),
      closing, _, hrest, hopening, ?_, rfl, hclosing, rfl, rfl⟩
    exact reads_expr_of_derives he rfl rfl (by rw [hclosing]; decide)

/-- What a rule of a statement without a body reads without a report is such a statement. -/
theorem isSimple_of_reads {form : StatementForm} {first : Token} {s t : State} {v : Statement}
    (hform : first.kind = form.kind) (hloop : form ≠ .loop) (hs : s.Numerals)
    (h : (Rule.statement form first).Reads s v t) :
    ∃ tokens, s.rest = tokens ++ t.rest ∧ IsSimple s.types (first :: tokens) v t.types := by
  obtain ⟨u, hu, semicolon, rest, hsemicolon, hkind, rfl⟩ := Rule.reads_statement_iff.1 h
  cases form with
  | loop => exact absurd rfl hloop
  | declaration =>
    obtain ⟨name, colon, typeName, rest', ty, value, hrest, hname, hcolon, htype, hvalue, rfl⟩ :=
      Rule.reads_declaration_iff.1 hu
    rcases Rule.reads_initializer_iff.1 hvalue with
      ⟨-, rfl, rfl⟩ | ⟨assign, rest'', e, hassign, hkind', rfl, he⟩
    · obtain rfl : rest' = semicolon :: rest := hsemicolon
      exact ⟨[name, colon, typeName, semicolon], hrest,
        .declaration hform hname hcolon htype hkind⟩
    · obtain rfl : rest' = assign :: rest'' := hassign
      obtain ⟨tokens, hbehind, hderives⟩ := derives_of_reads_expr he
        (hs.of_suffix ⟨[name, colon, typeName, assign], hrest.symm⟩)
      refine ⟨name :: colon :: typeName :: assign :: tokens ++ [semicolon], ?_, ?_⟩
      · have hrest'' : rest'' = tokens ++ u.rest := hbehind.1
        rw [hrest, hrest'', hsemicolon]
        simp only [State.rest_skipTo, List.cons_append, List.append_assoc, List.nil_append]
      · have htypes : u.types = s.types.declare name.lexeme ty := hbehind.2
        rw [State.types_skipTo, htypes]
        exact .initialized hform hname hcolon htype hkind' hderives hkind
  | assignment =>
    obtain ⟨assign, rest', e, hrest, hassign, he, rfl⟩ := Rule.reads_assignment_iff.1 hu
    obtain ⟨tokens, hbehind, hderives⟩ := derives_of_reads_expr he
      (hs.of_suffix ⟨[assign], hrest.symm⟩)
    refine ⟨assign :: tokens ++ [semicolon], ?_, ?_⟩
    · have hrest' : rest' = tokens ++ u.rest := hbehind.1
      rw [hrest, hrest', hsemicolon]
      simp only [State.rest_skipTo, List.cons_append, List.append_assoc, List.nil_append]
    · have htypes : u.types = s.types := hbehind.2
      rw [State.types_skipTo, htypes]
      exact .assignment hform hassign hderives hkind
  | print =>
    obtain ⟨e, he, rfl⟩ := Rule.reads_print_iff.1 hu
    obtain ⟨tokens, hbehind, hderives⟩ := derives_of_reads_expr he hs
    refine ⟨tokens ++ [semicolon], ?_, ?_⟩
    · rw [hbehind.1, hsemicolon]
      simp only [State.rest_skipTo, List.cons_append, List.append_assoc, List.nil_append]
    · rw [State.types_skipTo, hbehind.2]
      exact .print hform hderives hkind
  | read =>
    obtain ⟨name, rest', hrest, hname, rfl, rfl⟩ := Rule.reads_read_iff.1 hu
    obtain rfl : rest' = semicolon :: rest := hsemicolon
    exact ⟨[name, semicolon], hrest, .read hform hname hkind⟩
  | assertion =>
    obtain ⟨opening, rest', e, w, closing, rest'', hrest, hopening, he, hw, hclosing, rfl, rfl⟩ :=
      Rule.reads_assertion_iff.1 hu
    obtain rfl : rest'' = semicolon :: rest := hsemicolon
    obtain ⟨tokens, hbehind, hderives⟩ := derives_of_reads_expr he
      (hs.of_suffix ⟨[opening], hrest.symm⟩)
    refine ⟨opening :: tokens ++ [closing, semicolon], ?_, ?_⟩
    · have hrest' : rest' = tokens ++ w.rest := hbehind.1
      rw [hrest, hrest', hw]
      simp only [State.rest_skipTo, List.cons_append, List.append_assoc, List.nil_append]
    · have htypes : w.types = s.types := hbehind.2
      rw [State.types_skipTo, State.types_skipTo, htypes]
      exact .assert hform hopening hderives hclosing hkind

end MiniPL.Parser
