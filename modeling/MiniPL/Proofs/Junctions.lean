import MiniPL.Proofs.Endings
import MiniPL.Proofs.Shifts
import MiniPL.Proofs.Writing

/-!
# Texts joined by a line feed

What a place in a program text is inside of is told by the quotes, escapes and marks of comments in
front of it (`Inside.behind`); words, numbers and signs do not bear on it.  A string and a block
comment go on behind a line feed.  Everything else ends there, also what looks ahead: a line
comment, a word, a `/`, a `:` or a `.`; so the tokens of two texts with a line feed between them are
those of the first and those of the second, lower down.

`Lexer.inside_rest` ties `Inside` to the lexer.  Main statement: `tokenize_joined`.
-/

namespace MiniPL

/-! ### What a place is inside of -/

/-- What a place in a program text is inside of; `depth` counts the block comments around the
innermost one. -/
inductive Inside
  | nothing
  | string
  | lineComment
  | blockComment (depth : Nat)
  deriving DecidableEq, Repr

namespace Inside

/-- What stands around a block comment. -/
def around : (depth : Nat) → Inside
  | 0 => nothing
  | depth + 1 => blockComment depth

/-- What the place behind a text is inside of, if the place in front of it is inside of the first
argument. -/
def behind : Inside → List Char → Inside
  | inside, [] => inside
  | nothing, '"' :: cs => string.behind cs
  | nothing, '/' :: '/' :: cs => lineComment.behind cs
  | nothing, '/' :: '*' :: cs => (blockComment 0).behind cs
  | nothing, _ :: cs => nothing.behind cs
  | string, '\\' :: _ :: cs => string.behind cs
  | string, '"' :: cs => nothing.behind cs
  | string, _ :: cs => string.behind cs
  | lineComment, '\n' :: cs => nothing.behind cs
  | lineComment, _ :: cs => lineComment.behind cs
  | blockComment depth, '*' :: '/' :: cs => (around depth).behind cs
  | blockComment depth, '/' :: '*' :: cs => (blockComment (depth + 1)).behind cs
  | blockComment depth, _ :: cs => (blockComment depth).behind cs

/-- What the end of a text is inside of. -/
def atEnd (text : String) : Inside :=
  nothing.behind text.toList

section
variable {c : Char} {cs : List Char}

theorem behind_nothing (hquote : c ≠ '"') (hline : ¬ (c = '/' ∧ cs.head? = some '/'))
    (hblock : ¬ (c = '/' ∧ cs.head? = some '*')) :
    nothing.behind (c :: cs) = nothing.behind cs := by
  rw [behind]
  · exact hquote
  · rintro rest rfl rfl
    exact hline ⟨rfl, rfl⟩
  · rintro rest rfl rfl
    exact hblock ⟨rfl, rfl⟩

theorem behind_string (hquote : c ≠ '"') (hslash : c ≠ '\\') :
    string.behind (c :: cs) = string.behind cs := by
  rw [behind]
  · rintro d rest rfl
    exact absurd rfl hslash
  · exact hquote

theorem behind_lineComment (h : c ≠ '\n') :
    lineComment.behind (c :: cs) = lineComment.behind cs := by
  rw [behind]
  exact h

theorem behind_blockComment (h : ¬ Lexer.IsMark c cs.head?) (depth : Nat) :
    (blockComment depth).behind (c :: cs) = (blockComment depth).behind cs := by
  rw [behind]
  · rintro rest rfl rfl
    exact h (.inl ⟨rfl, rfl⟩)
  · rintro rest rfl rfl
    exact h (.inr ⟨rfl, rfl⟩)

/-- Characters that are no quotes and no slashes change nothing outside of strings and comments. -/
theorem behind_nothing_append {run : List Char} (h : ∀ d ∈ run, d ≠ '"' ∧ d ≠ '/') :
    nothing.behind (run ++ cs) = nothing.behind cs := by
  induction run with
  | nil => rfl
  | cons d run ih =>
    obtain ⟨⟨hquote, hslash⟩, hrun⟩ := List.forall_mem_cons.1 h
    rw [List.cons_append, behind_nothing hquote (fun h => hslash h.1) (fun h => hslash h.1),
      ih hrun]

end

end Inside

namespace Lexer

/-! ### Gaps -/

/-- What the place behind a text is inside of, if the text starts in the gap; the second character
of a mark is passed over. -/
def Gap.inside : Gap → List Char → Inside
  | blank, cs => Inside.nothing.behind cs
  | lineComment, cs => Inside.lineComment.behind cs
  | blockComment depth, cs => (Inside.blockComment depth).behind cs
  | opening depth, [] | closing depth, [] => .blockComment depth
  | opening depth, _ :: cs => (Inside.blockComment depth).behind cs
  | closing depth, _ :: cs => (Inside.around depth).behind cs

section
variable {gap : Gap} {c : Char} {cs : List Char} {p : Position}

theorem Gap.inside_blank {next : Gap} (h : Gap.blank.next? c cs.head? = some next) :
    Inside.nothing.behind (c :: cs) = next.inside cs := by
  rw [Gap.next?] at h
  split at h
  · rename_i hblank
    cases h
    have hne : ∀ d, Text.isBlank d = false → c ≠ d := by
      rintro d hd rfl
      rw [hblank] at hd
      cases hd
    have hslash : c ≠ '/' := hne '/' (by decide)
    exact Inside.behind_nothing (hne '"' (by decide)) (fun h => hslash h.1) (fun h => hslash h.1)
  split at h
  · rename_i hline
    cases h
    obtain ⟨rfl, hhead⟩ := hline
    obtain ⟨cs, rfl⟩ := List.head?_eq_some_iff.1 hhead
    exact (Inside.behind_lineComment (by decide)).symm
  split at h
  · rename_i hblock
    cases h
    obtain ⟨rfl, hhead⟩ := hblock
    obtain ⟨cs, rfl⟩ := List.head?_eq_some_iff.1 hhead
    rfl
  · cases h

theorem Gap.inside_blockComment {depth : Nat} {next : Gap}
    (h : (Gap.blockComment depth).next? c cs.head? = some next) :
    (Inside.blockComment depth).behind (c :: cs) = next.inside cs := by
  rw [Gap.next?] at h
  split at h
  · rename_i hclosing
    cases h
    obtain ⟨rfl, hhead⟩ := hclosing
    obtain ⟨cs, rfl⟩ := List.head?_eq_some_iff.1 hhead
    rfl
  rename_i hclosing
  split at h
  · rename_i hopening
    cases h
    obtain ⟨rfl, hhead⟩ := hopening
    obtain ⟨cs, rfl⟩ := List.head?_eq_some_iff.1 hhead
    rfl
  · rename_i hopening
    cases h
    exact Inside.behind_blockComment (fun hmark => hmark.elim hclosing hopening) depth

/-- One character further in a gap, the end of the text is inside of the same. -/
theorem Gap.inside_of_next? {next : Gap} (h : gap.next? c cs.head? = some next) :
    gap.inside (c :: cs) = next.inside cs := by
  cases gap with
  | blank => exact Gap.inside_blank h
  | lineComment =>
    obtain rfl := Option.some.inj h
    by_cases hc : c = '\n'
    · rw [hc]
      rfl
    · rw [if_neg hc]
      exact Inside.behind_lineComment hc
  | opening depth =>
    obtain rfl := Option.some.inj h
    rfl
  | blockComment depth => exact Gap.inside_blockComment h
  | closing depth => cases depth <;> (obtain rfl := Option.some.inj h; rfl)

theorem Gap.inside_last (h : (skipGapFrom gap cs p).rest = []) :
    gap.inside cs = (gap.last cs).inside [] := by
  fun_induction skipGapFrom gap cs p with
  | case1 => rfl
  | case2 gap c cs p next hnext ih => rw [Gap.inside_of_next? hnext, ih h, Gap.last_of_next? hnext]
  | case3 => cases h

/-- In front of a token a gap has come to its end. -/
theorem Gap.inside_of_eq_cons {rest : List Char} {q : Position}
    (h : skipGapFrom gap cs p = ⟨c :: rest, q⟩) :
    gap.inside cs = Inside.nothing.behind (c :: rest) ∧ Gap.blank.next? c rest.head? = none := by
  fun_induction skipGapFrom gap cs p with
  | case1 => cases h
  | case2 gap d cs p next hnext ih =>
    rw [Gap.inside_of_next? hnext]
    exact ih h
  | case3 gap d cs p hnext =>
    cases h
    obtain rfl := Gap.eq_blank_of_next?_eq_none hnext
    exact ⟨rfl, hnext⟩

end

/-! ### Tokens -/

section
variable {c : Char} {cs : List Char} {p : Position}

theorem inside_scanString (cs : List Char) (p : Position) :
    Inside.string.behind cs =
      if (scanString cs p).closed then Inside.nothing.behind (scanString cs p).after.rest
      else .string := by
  fun_induction scanString cs p with
  | case1 | case2 | case3 => rfl
  | case4 p d cs _ ih => exact ih
  | case5 c cs p hquote hslash ih =>
    rw [Inside.behind_string hquote hslash]
    exact ih

/-- A character that starts a token and is no quote changes nothing. -/
theorem inside_of_next?_eq_none (hquote : c ≠ '"') (h : Gap.blank.next? c cs.head? = none) :
    Inside.nothing.behind (c :: cs) = Inside.nothing.behind cs := by
  rw [Gap.next?] at h
  split at h
  · cases h
  split at h
  · cases h
  split at h
  · cases h
  · rename_i hline hblock
    exact Inside.behind_nothing hquote hline hblock

theorem inside_scanRun {isMember : Char → Bool} (hc : isWordChar c = true)
    (hmember : ∀ d, isMember d = true → isWordChar d = true) (kind : String → TokenKind) :
    Inside.nothing.behind (c :: cs) =
      Inside.nothing.behind (scanRun isMember kind c cs p).2.rest := by
  have hrun : ∀ d ∈ c :: cs.takeWhile isMember, d ≠ '"' ∧ d ≠ '/' := by
    intro d hd
    have hword : isWordChar d = true := by
      rcases List.mem_cons.1 hd with rfl | hd
      · exact hc
      · exact hmember d (List.mem_takeWhile_imp hd)
    exact ⟨ne_of_isWordChar hword (by decide), ne_of_isWordChar hword (by decide)⟩
  have htext : c :: cs = c :: cs.takeWhile isMember ++ cs.dropWhile isMember :=
    congrArg (c :: ·) List.takeWhile_append_dropWhile.symm
  rw [htext, Inside.behind_nothing_append hrun]
  rfl

theorem inside_scanSign (hquote : c ≠ '"') (h : Gap.blank.next? c cs.head? = none) :
    Inside.nothing.behind (c :: cs) = Inside.nothing.behind (scanSign c cs p).2.rest := by
  rw [inside_of_next?_eq_none hquote h]
  unfold scanSign
  cases cs with
  | nil => rfl
  | cons d ds =>
    dsimp only
    cases hpair : pairKind? c d with
    | none => rfl
    | some kind =>
      -- the second character of a pair starts neither a string nor a comment
      have hd : d = '=' ∨ d = '.' := by
        unfold pairKind? at hpair
        grind
      rcases hd with rfl | rfl <;> rfl

theorem scanToken_of_closed (h : (scanString cs (p.after '"')).closed = true) :
    scanToken '"' cs p =
      (⟨.stringLiteral, String.ofList (scanString cs (p.after '"')).text, p⟩,
        (scanString cs (p.after '"')).after) := by
  rw [scanToken, if_pos rfl]
  exact if_pos h

/-- Behind a token everything is as in front of it, unless the token is a string that is not
closed. -/
theorem inside_scanToken (h : Gap.blank.next? c cs.head? = none) :
    Inside.nothing.behind (c :: cs) =
      if (scanToken c cs p).1.isOpenString then .string
      else Inside.nothing.behind (scanToken c cs p).2.rest := by
  by_cases hquote : c = '"'
  · rw [hquote]
    refine (inside_scanString cs (p.after '"')).trans ?_
    cases hclosed : (scanString cs (p.after '"')).closed with
    | true =>
      rw [scanToken_of_closed hclosed]
      rfl
    | false =>
      rw [if_pos (scanToken_of_not_closed hclosed).1]
      rfl
  rw [if_neg fun hopen => hquote (quote_of_isOpenString hopen).1, scanToken, if_neg hquote]
  by_cases hdigit : c.isDigit = true
  · rw [if_pos hdigit]
    exact inside_scanRun (isWordChar_of_isDigit hdigit) (fun _ => isWordChar_of_isDigit) _
  rw [if_neg hdigit]
  by_cases hletter : isLetter c = true
  · rw [if_pos hletter]
    exact inside_scanRun (isWordChar_of_isLetter hletter) (fun _ => id) _
  · rw [if_neg hletter]
    exact inside_scanSign hquote h

end

/-! ### Texts -/

/-- The end of a text is inside of a string if its last token is a string that is not closed, and
otherwise inside of what its last gap leaves open. -/
theorem inside_rest (lexer : Lexer) :
    Inside.nothing.behind lexer.rest =
      if lexer.tokens.any Token.isOpenString then .string else lexer.lastGap.inside [] := by
  fun_induction Lexer.tokens lexer with
  | case1 lexer hnone =>
    rw [lastGap_of_next?_eq_none hnone]
    exact Gap.inside_last (rest_skipGap_of_next?_eq_none hnone)
  | case2 lexer token after hsome ih =>
    rw [lastGap_of_next?_eq_some hsome, List.any_cons]
    unfold next? at hsome
    cases hskip : lexer.skipGap with
    | mk text place =>
      rw [hskip] at hsome
      cases text with
      | nil => cases hsome
      | cons c cs =>
        have hscan : scanToken c cs place = (token, after) := Option.some.inj hsome
        obtain ⟨hgap, hstart⟩ := Gap.inside_of_eq_cons hskip
        refine hgap.trans ((inside_scanToken (p := place) hstart).trans ?_)
        rw [hscan, ih]
        cases token.isOpenString <;> rfl

end Lexer

theorem Inside.atEnd_eq (text : String) :
    Inside.atEnd text =
      if endsInString text then .string else (Lexer.ofText text).lastGap.inside [] :=
  Lexer.inside_rest (.ofText text)

theorem endsInString_eq_false_of_atEnd {text : String} (h : Inside.atEnd text ≠ .string) :
    endsInString text = false := by
  rw [Inside.atEnd_eq] at h
  refine Bool.eq_false_iff.2 fun hstring => h ?_
  rw [if_pos hstring]

theorem endsInBlockComment_eq_false_of_atEnd {text : String}
    (hstring : Inside.atEnd text ≠ .string)
    (h : ∀ depth, Inside.atEnd text ≠ .blockComment depth) : endsInBlockComment text = false := by
  rw [Inside.atEnd_eq, endsInString_eq_false_of_atEnd hstring] at h
  unfold endsInBlockComment
  cases hgap : (Lexer.ofText text).lastGap with
  | blank | lineComment => rfl
  | opening depth | blockComment depth | closing depth =>
    rw [hgap] at h
    exact absurd rfl (h depth)

/-! ### Texts joined by a line feed -/

/-- If a text ends neither inside of a string nor inside of a block comment, then with a line feed
and another text behind it there are its own tokens first and then those of the other text, with the
same kinds, lexemes and columns, as many lines lower as the first text has line feeds and one
more. -/
theorem tokenize_joined {front : String} (hstring : Inside.atEnd front ≠ .string)
    (hcomment : ∀ depth, Inside.atEnd front ≠ .blockComment depth) (back : String) :
    tokenize (front ++ "\n" ++ back) = tokenize front ++
      (tokenize back).map (Token.moved (Position.lowered (1 + front.toList.count '\n'))) := by
  -- the text behind starts at the start of a line
  have hplace : (Lexer.ofText front).ending.after '\n' = placeAfter (front.toList ++ ['\n']) := by
    rw [← after_placeAfter]
    exact congrArg (Position.after · '\n') (advance_placeAfter [] front.toList)
  rw [tokenize_append_lineFeed (endsInString_eq_false_of_atEnd hstring)
    (endsInBlockComment_eq_false_of_atEnd hstring hcomment), hplace, map_moved_behind,
    Position.shifted_concat_lineFeed]

/-- A string with marks of comments, a line comment with marks of a block comment, and a `/` in
front of the line feed: with a `/` behind it no comment is made. -/
theorem tokenize_joined_slashes :
    let front := "s := \"/*\\\"\"; // /*\ny := x /"
    let back := "/ 2 := \"z\";"
    Inside.atEnd front ≠ .string ∧ (∀ depth, Inside.atEnd front ≠ .blockComment depth) ∧
      tokenize (front ++ "\n" ++ back) = tokenize front ++
        (tokenize back).map (Token.moved (Position.lowered 2)) := by
  intro front back
  have hend : Inside.atEnd front = .nothing := by decide
  have hstring : Inside.atEnd front ≠ .string := by
    rw [hend]
    decide
  have hcomment : ∀ depth, Inside.atEnd front ≠ .blockComment depth := by
    intro depth
    rw [hend]
    intro h
    cases h
  have hlines : 1 + front.toList.count '\n' = 2 := by decide
  have hjoined := tokenize_joined hstring hcomment back
  rw [hlines] at hjoined
  exact ⟨hstring, hcomment, hjoined⟩

end MiniPL
