import MiniPL.Proofs.Moving
import MiniPL.Proofs.Typing

/-!
# A program given in pieces

A program may be given whole, or cut into pieces that are read and run one after another on one
machine; each piece is read with the types that the variables have by then.  If all declarations
stand outside of the loops, these are the types that the reader of the whole knows at the cut, so
that the pieces do what the whole does.

`Run.texts` runs texts in a row, `IsCut` is a text cut into pieces of whole statements, and
`Run.Agree` compares two runs up to the places of their faults.  Main statement:
`texts_agree_with_whole`.
-/

namespace MiniPL

open Grammar

/-! ### Texts in a row -/

/-- Reads a text, knowing the types that the variables have, and runs it, as a session does. -/
def Run.text (source : String) : Run Unit := do
  (parseText source (← get).store.types).program.exec

/-- Reads and runs texts one after another, up to the first that fails. -/
def Run.texts : List String → Run Unit
  | [] => pure ()
  | source :: rest => do
    Run.text source
    Run.texts rest

/-- The tokens are a row of whole statements. -/
def IsWhole (tokens : List Token) : Prop :=
  ∃ types b types', IsBlock types tokens b types'

/-- `IsCut source pieces`: the source is cut into the pieces; the tokens in front of each cut are
whole statements, and no cut is inside a comment. -/
inductive IsCut : String → List String → Prop
  | nil : IsCut "" []
  | cons {front back : String} {pieces : List String} {count : Nat}
    (hcut : CutsBehind count front back)
    (hwhole : IsWhole ((tokenize (front ++ back)).take count)) (h : IsCut back pieces) :
    IsCut (front ++ back) (front :: pieces)

theorem IsWhole.exists_isBlock {tokens : List Token} (h : IsWhole tokens) (types : TypeTable) :
    ∃ b types', IsBlock types tokens b types' := by
  obtain ⟨_, _, _, h⟩ := h
  obtain ⟨b, types', hblock, -⟩ := h.retype types
  exact ⟨b, types', hblock⟩

/-- Each piece has whole statements for its own tokens. -/
theorem IsCut.isWhole {source : String} {pieces : List String} (h : IsCut source pieces) :
    ∀ piece ∈ pieces, IsWhole (tokenize piece) := by
  induction h with
  | nil => exact fun _ hmem => (List.not_mem_nil hmem).elim
  | cons hcut hwhole _ ih =>
    rw [← hcut.tokenize_append.1] at hwhole
    exact List.forall_mem_cons.2 ⟨hwhole, ih⟩

/-- Whole statements are clean, whatever types are known. -/
theorem IsWhole.isClean {source : String} (h : IsWhole (tokenize source)) (types : TypeTable) :
    (parseText source types).isClean = true := by
  obtain ⟨b, types', hblock⟩ := h.exists_isBlock types
  rw [Parser.parseText_of_isBlock hblock]
  rfl

/-- Pieces that are clean by themselves make a cut. -/
theorem IsCut.cons_of_isClean {front back : String} {pieces : List String} {count : Nat}
    (hcut : CutsBehind count front back) (hclean : (parseText front).isClean = true)
    (h : IsCut back pieces) : IsCut (front ++ back) (front :: pieces) := by
  obtain ⟨types', hblock⟩ := Parser.isBlock_of_isClean hclean
  rw [hcut.tokenize_append.1] at hblock
  exact .cons hcut ⟨_, _, _, hblock⟩ h

/-! ### Blocks behind blocks -/

/-- A block that starts with the tokens of another is that block and a block behind it. -/
theorem Grammar.IsBlock.exists_behind {types types₁ types' : TypeTable} {front back : List Token}
    {b₁ b : Block} (hfront : IsBlock types front b₁ types₁)
    (h : IsBlock types (front ++ back) b types')
    (hnumerals : ∀ token ∈ back, token.kind = .intLiteral → token.number?.isSome = true) :
    ∃ b₂, b = b₁ ++ b₂ ∧ IsBlock types₁ back b₂ types' := by
  let s := Parser.State.initial types (front ++ back)
  have hrest : s.rest = front ++ back := Parser.State.rest_initial h.kind_ne_eof
  have hwhole := Parser.blockRun_initial_of_isBlock h
  have hparts := Parser.blockRun_of_isBlock hfront false s back rfl hrest
  obtain ⟨hb, hafter⟩ := Prod.mk.inj (hwhole.symm.trans hparts)
  have hclean : (Parser.blockRun false (s.moveTo back types₁)).2.diagnostics =
      (s.moveTo back types₁).diagnostics := by
    rw [← hafter]
    rfl
  obtain ⟨tokens, htokens, hblock, -⟩ :=
    Parser.isBlock_of_blockRun false (s.moveTo back types₁) hnumerals hclean
  rw [← hafter] at htokens hblock
  obtain rfl : back = tokens := htokens.trans (List.append_nil _)
  exact ⟨_, hb, hblock⟩

theorem Grammar.IsBlock.unique {types types' types'' : TypeTable} {tokens : List Token}
    {b c : Block} (h : IsBlock types tokens b types') (k : IsBlock types tokens c types'') :
    b = c :=
  congrArg Prod.fst ((Parser.blockRun_initial_of_isBlock h).symm.trans
    (Parser.blockRun_initial_of_isBlock k))

theorem Block.exec_append (b c : Block) :
    Block.exec (b ++ c) = (Block.exec b >>= fun _ => Block.exec c) := by
  induction b with
  | nil => rfl
  | cons v b ih => rw [List.cons_append, Block.exec, Block.exec, ih, bind_assoc]

/-! ### Runs that agree -/

/-- Two runs from a machine leave the same machine, and end both well or with the same fault, up to
its place. -/
structure Run.Agree (x y : Run Unit) (m : Machine) : Prop where
  ok : ∀ after, x m = .ok () after → y m = .ok () after
  error : ∀ fault after, x m = .error fault after →
    ∃ fault', y m = .error fault' after ∧ fault = { fault' with position := fault.position }

namespace Run.Agree

variable {x y x' y' : Run Unit} {m : Machine}

protected theorem rfl : x.Agree x m :=
  ⟨fun _ h => h, fun fault _ h => ⟨fault, h, rfl⟩⟩

theorem of_eq (h : x.Agree y m) (heq : y' m = y m) : x.Agree y' m := by
  constructor
  · intro after hx
    exact heq.trans (h.ok after hx)
  · intro fault after hx
    obtain ⟨fault', hy, hfault⟩ := h.error fault after hx
    exact ⟨fault', heq.trans hy, hfault⟩

theorem bind (hx : x.Agree x' m) (hy : ∀ after, x m = .ok () after → y.Agree y' after) :
    Run.Agree (x >>= fun _ => y) (x' >>= fun _ => y') m := by
  cases hrun : x m with
  | ok value after =>
    have hbind : (x >>= fun _ => y) m = y after := Run.bind_eq_of_ok hrun
    have hbind' : (x' >>= fun _ => y') m = y' after := Run.bind_eq_of_ok (hx.ok after hrun)
    have hrest := hy after hrun
    exact ⟨hbind ▸ hbind' ▸ hrest.ok, hbind ▸ hbind' ▸ hrest.error⟩
  | error fault after =>
    obtain ⟨fault', hrun', hfault⟩ := hx.error fault after hrun
    have hbind : (x >>= fun _ => y) m = .error fault after := Run.bind_eq_of_error hrun
    have hbind' : (x' >>= fun _ => y') m = .error fault' after := Run.bind_eq_of_error hrun'
    constructor
    · intro _ h
      rw [hbind] at h
      cases h
    · intro _ _ h
      rw [hbind] at h
      cases h
      exact ⟨fault', hbind', hfault⟩

end Run.Agree

/-- A block agrees with the same block at other places. -/
theorem Block.agree_moved (place : Position → Position) (b : Block) (m : Machine) :
    Run.Agree (Block.exec (b.moved place)) (Block.exec b) m := by
  rw [Block.exec_moved]
  cases hrun : Block.exec b m with
  | ok value after =>
    have hmoved : (Block.exec b).moved place m = .ok value after := by rw [Run.moved, hrun]
    refine ⟨fun _ h => ?_, fun _ _ h => ?_⟩
    · rw [hrun, ← h, hmoved]
    · rw [hmoved] at h
      cases h
  | error fault after =>
    have hmoved : (Block.exec b).moved place m = .error (fault.moved place) after := by
      rw [Run.moved, hrun]
    refine ⟨fun _ h => ?_, fun _ _ h => ?_⟩
    · rw [hmoved] at h
      cases h
    · rw [hmoved] at h
      cases h
      exact ⟨fault, hrun, rfl⟩

/-! ### The whole and the pieces -/

theorem Block.declaresOutsideLoops_append (b c : Block) :
    Block.declaresOutsideLoops (b ++ c) =
      (Block.declaresOutsideLoops b && Block.declaresOutsideLoops c) :=
  List.all_append

theorem Run.text_eq {source : String} {m : Machine} {b : Block} {types' : TypeTable}
    (h : IsBlock m.store.types (tokenize source) b types') :
    Run.text source m = Block.exec b m := by
  show (parseText source m.store.types).program.exec m = _
  rw [Parser.parseText_of_isBlock h]
  rfl

/-- The integer literals of a text write numbers. -/
theorem number?_isSome_of_mem_tokenize {source : String} {token : Token}
    (h : token ∈ tokenize source) (hkind : token.kind = .intLiteral) :
    token.number?.isSome = true := by
  rw [← Parser.State.rest_initial_tokenize .empty] at h
  exact Parser.State.numerals_initial .empty source token h hkind

theorem number?_isSome_of_mem_moved {source : String} {place : Position → Position} {token : Token}
    (h : token ∈ (tokenize source).map (Token.moved place)) (hkind : token.kind = .intLiteral) :
    token.number?.isSome = true := by
  obtain ⟨token, hmem, rfl⟩ := List.mem_map.1 h
  show token.number?.isSome = true
  exact number?_isSome_of_mem_tokenize hmem hkind

/-- A text does what the pieces do, on a machine whose variables have the types known in front of
the text; the text may stand at any place in a longer one. -/
theorem IsCut.agree {source : String} {pieces : List String} (h : IsCut source pieces)
    {types types' : TypeTable} {b : Block} {m : Machine} (place : Position → Position)
    (hblock : IsBlock types ((tokenize source).map (Token.moved place)) b types')
    (hout : Block.declaresOutsideLoops b = true) (hm : m.store.types = types) :
    Run.Agree (Block.exec b) (Run.texts pieces) m := by
  induction h generalizing place types b m with
  | nil =>
    have hempty : tokenize "" = [] := Lexer.tokens_of_next?_eq_none rfl
    rw [hempty] at hblock
    obtain rfl : b = [] := hblock.unique .nil
    exact .rfl
  | @cons front back pieces count hcut hwhole _ ih =>
    obtain ⟨htake, htokens⟩ := hcut.tokenize_append
    rw [← htake] at hwhole
    obtain ⟨b₁, types₁, hfront⟩ := hwhole.exists_isBlock types
    rw [htokens, List.map_append, List.map_map] at hblock
    let behind := (placeAfter front.toList).behind
    have hnumerals : ∀ token ∈ (tokenize back).map (Token.moved (place ∘ behind)),
        token.kind = .intLiteral → token.number?.isSome = true :=
      fun _ => number?_isSome_of_mem_moved
    obtain ⟨b₂, rfl, hback⟩ := (hfront.moved place).exists_behind hblock hnumerals
    rw [Block.declaresOutsideLoops_append, Bool.and_eq_true] at hout
    have htext : Run.text front m = Block.exec b₁ m := Run.text_eq (hm ▸ hfront)
    rw [Block.exec_append]
    refine .bind ((Block.agree_moved place b₁ m).of_eq htext) fun after hrun => ?_
    have hleads := ((hfront.moved place).leads hout.1 m hm).2
    rw [Block.run_log] at hleads
    exact ih (place ∘ behind) hback hout.2 (hleads () after hrun)

/-- Pieces read and run one after another agree with the whole: they are clean, and leave the
machine that the whole leaves; if the whole fails, the first piece that fails does so with the same
kind of error, message and suggestion, and the machine is the one that the whole leaves by then. -/
theorem texts_agree_with_whole (source : String) (pieces : List String) (input : Input)
    (output : Output) (hclean : (parseText source).isClean = true)
    (hout : Block.declaresOutsideLoops (parseText source).program.statements = true)
    (hcut : IsCut source pieces) :
    (∀ piece ∈ pieces, ∀ types, (parseText piece types).isClean = true) ∧
      (∀ after, (parseText source).program.exec ⟨.empty, input, output⟩ = .ok () after →
        Run.texts pieces ⟨.empty, input, output⟩ = .ok () after) ∧
      ∀ fault after, (parseText source).program.exec ⟨.empty, input, output⟩ = .error fault after →
        ∃ fault', Run.texts pieces ⟨.empty, input, output⟩ = .error fault' after ∧
          fault'.kind = fault.kind ∧ fault'.message = fault.message ∧
            fault'.suggestion = fault.suggestion := by
  obtain ⟨types', hblock⟩ := Parser.isBlock_of_isClean hclean
  have hmoved : (tokenize source).map (Token.moved id) = tokenize source := List.map_id _
  rw [← hmoved] at hblock
  have hagree : Run.Agree (parseText source).program.exec (Run.texts pieces)
      ⟨.empty, input, output⟩ := hcut.agree id hblock hout rfl
  refine ⟨fun piece hmem => (hcut.isWhole piece hmem).isClean, hagree.ok,
    fun fault after hrun => ?_⟩
  obtain ⟨fault', htexts, hfault⟩ := hagree.error fault after hrun
  rw [hfault]
  exact ⟨fault', htexts, rfl, rfl, rfl⟩

/-- A cut behind a line comment, and one in front of the second type of a variable. -/
theorem texts_agree_with_redeclaration :
    let source := "var x : int; // one\nx := 2; var x : string; print x + y;"
    let pieces := ["var x : int; // one", "\nx := 2; ", "var x : string; print x + y;"]
    (parseText source).isClean = true ∧
      Block.declaresOutsideLoops (parseText source).program.statements = true ∧
      IsCut source pieces ∧
      (∀ piece ∈ pieces, ∀ types, (parseText piece types).isClean = true) ∧
      (∀ after, (parseText source).program.exec ⟨.empty, .empty, {}⟩ = .ok () after →
        Run.texts pieces ⟨.empty, .empty, {}⟩ = .ok () after) ∧
      ∀ fault after, (parseText source).program.exec ⟨.empty, .empty, {}⟩ = .error fault after →
        ∃ fault', Run.texts pieces ⟨.empty, .empty, {}⟩ = .error fault' after ∧
          fault'.kind = fault.kind ∧ fault'.message = fault.message ∧
            fault'.suggestion = fault.suggestion := by
  intro source pieces
  have hclean : (parseText source).isClean = true := by decide +kernel
  have hout : Block.declaresOutsideLoops (parseText source).program.statements = true := by
    decide +kernel
  have hlast : CutsBehind 10 "var x : string; print x + y;" "" :=
    ⟨[], ⟨1, 29⟩, by decide +kernel, .gap .nil⟩
  have hsecond : CutsBehind 4 "\nx := 2; " ("var x : string; print x + y;" ++ "") :=
    ⟨[' '], ⟨2, 8⟩, by decide +kernel, .gap (.blank (by decide) .nil)⟩
  have hfirst : CutsBehind 5 "var x : int; // one"
      ("\nx := 2; " ++ ("var x : string; print x + y;" ++ "")) :=
    ⟨[' ', '/', '/', ' ', 'o', 'n', 'e'], ⟨1, 13⟩, by decide +kernel,
      .line (.blank (by decide) .nil) (by decide)⟩
  have hcut : IsCut source pieces := by
    refine .cons_of_isClean hfirst (by decide +kernel) ?_
    refine .cons_of_isClean hsecond (by decide +kernel) ?_
    exact .cons_of_isClean hlast (by decide +kernel) .nil
  exact ⟨hclean, hout, hcut, texts_agree_with_whole source pieces .empty {} hclean hout hcut⟩

end MiniPL
