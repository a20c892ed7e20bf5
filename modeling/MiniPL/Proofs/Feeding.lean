import MiniPL.Proofs.Boundaries
import MiniPL.Proofs.Endings
import MiniPL.Proofs.Layout
import MiniPL.Proofs.Lines
import MiniPL.Proofs.Writing

/-!
# Typing a program line by line

The shell collects lines until their text is complete, and then starts afresh (`feed`).  A clean
program typed so is cut behind statements that stand outside of all loops, and the tokens of the
texts are those of the program.  Statements, the headers and bodies of loops, strings, and comments
inside of statements may go over several lines.

A block comment between two statements may not: where only whole statements stand in front of a line
break inside the comment, their text is complete, and the rest of the comment is read as program
text.  `KeepsComments` tells that no line break is such.

Main statement: `feed_of_isClean`.
-/

namespace MiniPL

open Text (isBlank unlines)
open Grammar

/-! ### Lines typed one after another -/

/-- What has become of lines: the commands, the complete texts, and the text that needs more
lines. -/
structure Fed where
  commands : List String
  texts : List String
  buffer : String
  deriving DecidableEq, Repr

/-- What the shell makes of lines one after another, behind the lines in the buffer. -/
def feed (buffer : String) : List String → Fed
  | [] => ⟨[], [], buffer⟩
  | line :: lines =>
    match Entry.ofLine buffer line with
    | .command text =>
      let fed := feed buffer lines
      { fed with commands := text :: fed.commands }
    | .unfinished buffer => feed buffer lines
    | .complete text =>
      let fed := feed "" lines
      { fed with texts := text :: fed.texts }

/-- A line that is no command leaves the shell with the buffer of `feed`, and runs its texts. -/
theorem Shell.enter_eq_foldl (shell : Shell) (line : String) (behind : List (Option String))
    (h : (feed shell.buffer [line]).commands = []) :
    shell.enter line behind =
      ((feed shell.buffer [line]).texts.foldl (fun shell text => shell.runText text behind)
        { shell with buffer := (feed shell.buffer [line]).buffer }, true) := by
  cases hentry : Entry.ofLine shell.buffer line with
  | command text => simp [feed, hentry] at h
  | unfinished buffer => simp only [Shell.enter, feed, hentry, List.foldl_nil]
  | complete text => simp only [Shell.enter, feed, hentry, List.foldl_cons, List.foldl_nil]

/-- The lines of a text: they hold no line feeds, and with a line feed behind each they are the
text, which may lack the last one. -/
structure IsLines (source : String) (lines : List String) : Prop where
  feedless : ∀ line ∈ lines, '\n' ∉ line.toList
  text : unlines lines = source ∨ unlines lines = source ++ "\n"

/-- Behind a text, no line but the last ends inside a block comment in front of which only whole
statements stand. -/
def KeepsComments (text : String) (lines : List String) : Prop :=
  ∀ front line back, lines = front ++ line :: back → back ≠ [] →
    IsWhole (tokenize (text ++ unlines front ++ line)) →
    endsInBlockComment (text ++ unlines front ++ line) = false

/-! ### Whole statements -/

section
variable {front back : List Token} {place : Position → Position}

theorem IsWhole.isComplete {text : String} (h : IsWhole (tokenize text)) :
    isComplete text = true := by
  obtain ⟨_, _, _, hblock⟩ := h
  exact (isComplete_iff text).2 hblock.endsOutside

theorem IsWhole.of_endsOutside (h : IsWhole (front ++ back)) (hends : EndsOutside front) :
    IsWhole front := by
  obtain ⟨types, _, _, hblock⟩ := h
  obtain ⟨b₁, types₁, hfront⟩ := hblock.exists_front hends
  exact ⟨types, b₁, types₁, hfront⟩

/-- Whole statements behind whole statements, wherever those stand. -/
theorem IsWhole.append_moved (hfront : IsWhole front) (hback : IsWhole back)
    (place : Position → Position) : IsWhole (front ++ back.map (Token.moved place)) := by
  obtain ⟨types, _, types', hfront⟩ := hfront
  obtain ⟨_, _, hback⟩ := hback.exists_isBlock types'
  exact ⟨types, _, _, hfront.append (hback.moved place)⟩

/-- Tokens of a text that are whole statements elsewhere are whole statements. -/
theorem IsWhole.of_moved {text : String} (h : IsWhole ((tokenize text).map (Token.moved place))) :
    IsWhole (tokenize text) := by
  obtain ⟨b, types', hblock⟩ := h.exists_isBlock .empty
  have hreports := (((SameTokens.refl (tokenize text)).moved place).parse_eq .empty).2
  rw [Parser.parseTokens_of_isBlock hblock, ← Parser.parseText_eq] at hreports
  have hclean : (parseText text).isClean = true :=
    List.isEmpty_iff.2 (List.map_eq_nil_iff.1 hreports)
  obtain ⟨types, hblock⟩ := Parser.isBlock_of_isClean hclean
  exact ⟨_, _, types, hblock⟩

/-- What stands behind whole statements, among whole statements, is whole statements. -/
theorem IsWhole.behind {text : String} (hfront : EndsOutside front)
    (h : IsWhole (front ++ (tokenize text).map (Token.moved place))) : IsWhole (tokenize text) := by
  obtain ⟨types, _, _, hblock⟩ := h
  obtain ⟨_, _, hfront⟩ := hblock.exists_front hfront
  obtain ⟨_, _, hback⟩ := hfront.exists_behind hblock fun _ => number?_isSome_of_mem_moved
  exact IsWhole.of_moved ⟨_, _, _, hback⟩

/-- Whole statements hold no string that is not closed. -/
theorem IsWhole.endsInString_eq_false {text : String} (h : IsWhole (tokenize text)) :
    endsInString text = false := by
  obtain ⟨_, _, _, hblock⟩ := h
  have hunknown : ∀ token ∈ tokenize text, token.kind ≠ .unknown := hblock.kind_ne rfl (by decide)
  refine List.any_eq_false.2 fun token hmem hopen => ?_
  simp [Token.isOpenString, hunknown token hmem] at hopen

end

/-! ### Lines that start with a colon -/

theorem exists_blanks_of_startsWithColon {line : String}
    (h : startsWithColon (Text.trim line) = true) :
    ∃ blanks more, line.toList = blanks ++ ':' :: more ∧ ∀ c ∈ blanks, isBlank c = true := by
  have hhead : (Text.trimChars line.toList).head? = some ':' := by
    simpa [startsWithColon, Text.trim] using h
  obtain ⟨trimmed, htrimmed⟩ := List.head?_eq_some_iff.1 hhead
  have hprefix : Text.trimChars line.toList <+: line.toList.dropWhile isBlank :=
    List.rdropWhile_prefix isBlank _
  obtain ⟨behind, hbehind⟩ := hprefix
  refine ⟨line.toList.takeWhile isBlank, trimmed ++ behind, ?_, ?_⟩
  · rw [← List.cons_append, ← htrimmed, hbehind, List.takeWhile_append_dropWhile]
  · exact List.all_eq_true.1 List.all_takeWhile

theorem Lexer.kind_scanToken_colon (cs : List Char) (p : Position) :
    (scanToken ':' cs p).1.kind = .colon ∨ (scanToken ':' cs p).1.kind = .assign := by
  unfold scanToken
  rw [if_neg (by decide), if_neg (by decide), if_neg (by decide)]
  unfold scanSign
  cases cs with
  | nil => exact .inl rfl
  | cons d ds =>
    dsimp only
    cases hpair : pairKind? ':' d with
    | none => exact .inl rfl
    | some kind =>
      refine .inr ?_
      unfold pairKind? at hpair
      split at hpair
      · exact (Option.some.inj hpair).symm
      · rw [if_neg fun hdot => absurd hdot.1 (by decide)] at hpair
        cases hpair

/-- A line that starts with a colon has a colon for its first token. -/
theorem head?_tokenize_of_startsWithColon {line : String}
    (h : startsWithColon (Text.trim line) = true) (back : String) :
    ∃ first, (tokenize (line ++ back)).head? = some first ∧
      (first.kind = .colon ∨ first.kind = .assign) := by
  obtain ⟨blanks, more, hline, hblanks⟩ := exists_blanks_of_startsWithColon h
  have hgap := Lexer.skipGapFrom_gap (Lexer.isGap_of_blank hblanks) (':' :: (more ++ back.toList))
    (p := .start)
  have hnext : Lexer.Gap.blank.next? ':' (more ++ back.toList).head? = none :=
    Lexer.next?_eq_none_of_not_isBlank (by decide) fun hc => absurd hc (by decide)
  have htext : (line ++ back).toList = blanks ++ ':' :: (more ++ back.toList) := by simp [hline]
  have hskip : (Lexer.ofText (line ++ back)).skipGap =
      ⟨':' :: (more ++ back.toList), Position.start.advance blanks⟩ := by
    rw [Lexer.ofText, htext, Lexer.skipGap, hgap, Lexer.skipGapFrom, hnext]
  have hscan : (Lexer.ofText (line ++ back)).next? =
      some (Lexer.scanToken ':' (more ++ back.toList) (Position.start.advance blanks)) := by
    rw [Lexer.next?, hskip]
  refine ⟨_, ?_, Lexer.kind_scanToken_colon (more ++ back.toList) (Position.start.advance blanks)⟩
  rw [tokenize, Lexer.tokens_of_next?_eq_some hscan]
  rfl

/-- No line of whole statements is a command. -/
theorem IsWhole.startsWithColon_eq_false {line back : String}
    (h : IsWhole (tokenize (line ++ back))) : startsWithColon (Text.trim line) = false := by
  refine Bool.eq_false_iff.2 fun hcolon => ?_
  obtain ⟨first, hfirst, hkind⟩ := head?_tokenize_of_startsWithColon hcolon back
  obtain ⟨_, _, _, hblock⟩ := h
  obtain ⟨hcolon, hassign⟩ := hblock.kind_head_ne first hfirst
  exact hkind.elim hcolon hassign

/-! ### One line -/

section
variable {buffer line : String} {lines : List String}

/-- A line is a command only if nothing is collected yet. -/
theorem ofLine_eq (hcommand : buffer = "" → startsWithColon (Text.trim line) = false) :
    Entry.ofLine buffer line =
      if isComplete (buffer ++ line ++ "\n") then .complete (buffer ++ line ++ "\n")
      else .unfinished (buffer ++ line ++ "\n") := by
  have hnot : ¬ (buffer.isEmpty && startsWithColon (Text.trim line)) = true := by
    rw [Bool.and_eq_true, String.isEmpty_iff]
    rintro ⟨hbuffer, hcolon⟩
    rw [hcommand hbuffer] at hcolon
    cases hcolon
  unfold Entry.ofLine
  rw [if_neg hnot]

/-- A line that makes the text complete ends outside of strings. -/
theorem endsOutside_of_isComplete {text : String} (h : isComplete (text ++ "\n") = true) :
    endsInString text = false ∧ EndsOutside (tokenize text) := by
  have hends := (isComplete_iff _).1 h
  have hstring : endsInString text = false := by
    refine Bool.eq_false_iff.2 fun hstring => ?_
    obtain ⟨last, hlast, hopen⟩ := getLast?_of_endsInString hstring
    simp [Token.isOpenString, hends.semicolon last hlast] at hopen
  rw [tokenize_lineFeed hstring] at hends
  exact ⟨hstring, hends⟩

theorem append_unlines_cons (text line : String) (lines : List String) :
    text ++ unlines (line :: lines) = text ++ line ++ "\n" ++ unlines lines := by
  refine String.toList_inj.1 ?_
  simp

/-- Lines behind a complete text break no more comments if that text is left away. -/
theorem KeepsComments.behind {text : String} (h : KeepsComments (text ++ "\n") lines)
    (hstring : endsInString text = false) (hcomment : endsInBlockComment text = false)
    (hwhole : IsWhole (tokenize text)) : KeepsComments "" lines := by
  intro front other back hlines hback hother
  have htext : text ++ "\n" ++ unlines front ++ other =
      text ++ "\n" ++ ("" ++ unlines front ++ other) := by
    rw [String.empty_append, String.append_assoc]
  have hkeeps := h front other back hlines hback
  rw [htext, tokenize_append_lineFeed hstring hcomment,
    endsInBlockComment_append_lineFeed hstring hcomment] at hkeeps
  exact hkeeps (hwhole.append_moved hother _)

theorem keepsComments_nil (text : String) : KeepsComments text [] := by
  intro front other back hlines
  simp at hlines

theorem keepsComments_cons_iff {text line : String} :
    KeepsComments text (line :: lines) ↔
      (lines ≠ [] → IsWhole (tokenize (text ++ line)) → endsInBlockComment (text ++ line) = false) ∧
        KeepsComments (text ++ line ++ "\n") lines := by
  constructor
  · intro h
    constructor
    · intro hlines hwhole
      simpa using h [] line lines rfl hlines (by simpa using hwhole)
    · intro front other back hlines hback
      rw [← append_unlines_cons]
      exact h (line :: front) other back (congrArg (line :: ·) hlines) hback
  · rintro ⟨hline, h⟩ front other back hlines hback
    cases front with
    | nil =>
      obtain ⟨rfl, rfl⟩ := List.cons.inj hlines
      simpa using hline hback
    | cons first front =>
      obtain ⟨rfl, hbehind⟩ := List.cons.inj hlines
      rw [append_unlines_cons]
      exact h front other back hbehind hback

end

/-! ### All lines -/

/-- Lines are fed as their text has it: no line is a command, none is left over, and the complete
texts are whole statements with the tokens of the text. -/
structure Fed.Covers (fed : Fed) (text : String) : Prop where
  commands : fed.commands = []
  buffer : fed.buffer = ""
  whole : ∀ text ∈ fed.texts, IsWhole (tokenize text)
  same : SameTokens (fed.texts.flatMap tokenize) (tokenize text)

theorem Fed.covers_nil : Fed.Covers ⟨[], [], ""⟩ "" := by
  refine ⟨rfl, rfl, List.forall_mem_nil _, ?_⟩
  rw [tokenize, Lexer.tokens_of_next?_eq_none rfl]
  exact .nil

section
variable {text rest : String}

/-- The last line makes the text complete. -/
theorem Fed.covers_singleton (hstring : endsInString text = false)
    (hwhole : IsWhole (tokenize text)) : Fed.Covers ⟨[], [text ++ "\n"], ""⟩ (text ++ "\n") := by
  refine ⟨rfl, rfl, List.forall_mem_singleton.2 ?_, ?_⟩
  · rwa [tokenize_lineFeed hstring]
  · rw [List.flatMap_singleton]
    exact .refl _

/-- A line makes the text complete, and others are fed behind it. -/
theorem Fed.Covers.behind {fed : Fed} (h : fed.Covers rest) (hstring : endsInString text = false)
    (hcomment : endsInBlockComment text = false) (hwhole : IsWhole (tokenize text)) :
    Fed.Covers { fed with texts := (text ++ "\n") :: fed.texts } (text ++ "\n" ++ rest) := by
  refine ⟨h.commands, h.buffer, List.forall_mem_cons.2 ⟨?_, h.whole⟩, ?_⟩
  · rwa [tokenize_lineFeed hstring]
  · rw [List.flatMap_cons, tokenize_lineFeed hstring, tokenize_append_lineFeed hstring hcomment]
    exact List.rel_append (SameTokens.refl _) (h.same.moved _)

end

/-- Lines behind the lines in the buffer, where these are not complete. -/
theorem feed_covers (lines : List String) {buffer : String}
    (hbuffer : buffer = "" ∨ isComplete buffer = false)
    (hwhole : IsWhole (tokenize (buffer ++ unlines lines)))
    (hkeeps : KeepsComments buffer lines) :
    (feed buffer lines).Covers (buffer ++ unlines lines) := by
  induction lines generalizing buffer with
  | nil =>
    rw [Text.unlines_nil, String.append_empty] at hwhole ⊢
    -- what is left in the buffer would be whole statements that are not complete
    have hempty : buffer = "" := by
      refine hbuffer.resolve_right fun hnot => ?_
      rw [hwhole.isComplete] at hnot
      cases hnot
    subst hempty
    exact Fed.covers_nil
  | cons line lines ih =>
    rw [append_unlines_cons] at hwhole ⊢
    have hcommand : buffer = "" → startsWithColon (Text.trim line) = false := by
      rintro rfl
      rw [String.empty_append, String.append_assoc] at hwhole
      exact hwhole.startsWithColon_eq_false
    rw [keepsComments_cons_iff] at hkeeps
    rw [feed, ofLine_eq hcommand]
    by_cases hcomplete : isComplete (buffer ++ line ++ "\n") = true
    · rw [if_pos hcomplete]
      obtain ⟨hstring, hends⟩ := endsOutside_of_isComplete hcomplete
      have hwholeLine : IsWhole (tokenize (buffer ++ line)) := by
        obtain ⟨more, hmore⟩ := exists_tokenize_append_lineFeed hstring (unlines lines)
        rw [hmore] at hwhole
        exact hwhole.of_endsOutside hends
      by_cases hlines : lines = []
      · subst hlines
        rw [Text.unlines_nil, String.append_empty]
        exact Fed.covers_singleton hstring hwholeLine
      · have hcomment := hkeeps.1 hlines hwholeLine
        have hrest : IsWhole (tokenize (unlines lines)) := by
          rw [tokenize_append_lineFeed hstring hcomment] at hwhole
          exact hwhole.behind hends
        rw [← String.empty_append (s := unlines lines)] at hrest
        -- the lines behind start afresh: the condition on comments holds of them by themselves
        have hfed := ih (.inl rfl) hrest (hkeeps.2.behind hstring hcomment hwholeLine)
        rw [String.empty_append] at hfed
        exact hfed.behind hstring hcomment hwholeLine
    · rw [if_neg hcomplete]
      exact ih (.inr (Bool.eq_false_iff.2 hcomplete)) hwhole hkeeps.2

/-- A clean program that is typed line by line is cut into clean texts with its tokens, and nothing
is taken for a command or left over, if no line in front of others ends inside a block comment
behind whole statements. -/
theorem feed_of_isClean (source : String) (lines : List String)
    (hclean : (parseText source).isClean = true) (hlines : IsLines source lines)
    (hkeeps : KeepsComments "" lines) :
    let fed := feed "" lines
    fed.commands = [] ∧ fed.buffer = "" ∧
      (∀ text ∈ fed.texts, ∀ types, (parseText text types).isClean = true) ∧
      SameTokens (fed.texts.flatMap tokenize) (tokenize source) := by
  obtain ⟨types, hblock⟩ := Parser.isBlock_of_isClean hclean
  have hsource : IsWhole (tokenize source) := ⟨_, _, _, hblock⟩
  have htokens : tokenize ("" ++ unlines lines) = tokenize source := by
    rw [String.empty_append]
    rcases hlines.text with htext | htext
    · rw [htext]
    · rw [htext, tokenize_lineFeed hsource.endsInString_eq_false]
  have hcovers := feed_covers lines (.inl rfl) (htokens ▸ hsource) hkeeps
  refine ⟨hcovers.commands, hcovers.buffer, fun text hmem => (hcovers.whole text hmem).isClean, ?_⟩
  rw [← htokens]
  exact hcovers.same

/-- A comment in front of a loop, a string over two lines, the second of which starts with a colon,
a line comment, a comment inside of a statement over two lines, and a comment at the end that is
never closed. -/
theorem feed_of_isClean_over_lines :
    let source := "/* twice */ for i in 1..2 do\n  print \"i\n:\"; // text\n" ++
      "end /* of\n*/ for;\nprint 3; /* done"
    let lines := ["/* twice */ for i in 1..2 do", "  print \"i", ":\"; // text", "end /* of",
      "*/ for;", "print 3; /* done"]
    (parseText source).isClean = true ∧ IsLines source lines ∧ KeepsComments "" lines ∧
      let fed := feed "" lines
      fed.commands = [] ∧ fed.buffer = "" ∧
        (∀ text ∈ fed.texts, ∀ types, (parseText text types).isClean = true) ∧
        SameTokens (fed.texts.flatMap tokenize) (tokenize source) := by
  intro source lines
  have hclean : (parseText source).isClean = true := by decide +kernel
  have hlines : IsLines source lines := ⟨by decide, .inr (by decide)⟩
  have hkeeps : KeepsComments "" lines := by
    refine keepsComments_cons_iff.2 ⟨fun _ _ => by decide +kernel, ?_⟩
    refine keepsComments_cons_iff.2 ⟨fun _ _ => by decide +kernel, ?_⟩
    refine keepsComments_cons_iff.2 ⟨fun _ _ => by decide +kernel, ?_⟩
    refine keepsComments_cons_iff.2 ⟨fun _ h => absurd h.isComplete (by decide +kernel), ?_⟩
    refine keepsComments_cons_iff.2 ⟨fun _ _ => by decide +kernel, ?_⟩
    exact keepsComments_cons_iff.2 ⟨fun h => absurd rfl h, keepsComments_nil _⟩
  exact ⟨hclean, hlines, hkeeps, feed_of_isClean source lines hclean hlines hkeeps⟩

/-- A line break inside a comment in front of a statement: the first line is complete by itself, and
the rest of the comment makes a text that is not clean. -/
theorem not_clean_of_broken_comment :
    let source := "/* a\nb */ print 2;"
    let lines := ["/* a", "b */ print 2;"]
    (parseText source).isClean = true ∧ IsLines source lines ∧
      feed "" lines = ⟨[], ["/* a\n", "b */ print 2;\n"], ""⟩ ∧
      (parseText "b */ print 2;\n").isClean = false ∧
      ¬ SameTokens ((feed "" lines).texts.flatMap tokenize) (tokenize source) := by
  intro source lines
  have hfed : feed "" lines = ⟨[], ["/* a\n", "b */ print 2;\n"], ""⟩ := by decide +kernel
  have hlines : IsLines source lines := ⟨by decide, .inr (by decide)⟩
  refine ⟨by decide +kernel, hlines, hfed, by decide +kernel, ?_⟩
  rw [hfed]
  decide +kernel

end MiniPL
