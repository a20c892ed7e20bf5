import MiniPL.Token.Lexer

/-!
# The texts of gaps

What may stand between two tokens, as a grammar of texts: blanks, line comments through their line
feed, and block comments, which nest.  Behind the last token a comment may also be left open.

    gap     = (blank | "//" line "\\n" | "/*" body)*
    body    = "*/" | plain body | "/*" body body

A plain character of a body does not start `*/` or `/*`.

Main statement: `exists_gap`, the lexer passes over exactly such a text.
-/

namespace MiniPL.Lexer

open Text (isBlank)

/-! ### Gaps as texts -/

/-- Whether a character and the one behind it are a mark of block comments. -/
def IsMark (c : Char) (next? : Option Char) : Prop :=
  c = '*' ∧ next? = some '/' ∨ c = '/' ∧ next? = some '*'

/-- The text of a block comment behind its `/*`, through its `*/`. -/
inductive CommentBody : List Char → Prop
  | close : CommentBody ['*', '/']
  | plain {c : Char} {cs : List Char} (hc : ¬ IsMark c cs.head?) (h : CommentBody cs) :
    CommentBody (c :: cs)
  | nested {inner cs : List Char} (hinner : CommentBody inner) (h : CommentBody cs) :
    CommentBody ('/' :: '*' :: inner ++ cs)

/-- The text of a block comment behind its `/*`, if it is never closed. -/
inductive OpenBody : List Char → Prop
  | nil : OpenBody []
  | plain {c : Char} {cs : List Char} (hc : ¬ IsMark c cs.head?) (h : OpenBody cs) :
    OpenBody (c :: cs)
  | nested {inner cs : List Char} (hinner : CommentBody inner) (h : OpenBody cs) :
    OpenBody ('/' :: '*' :: inner ++ cs)
  | opening {cs : List Char} (h : OpenBody cs) : OpenBody ('/' :: '*' :: cs)

/-- The text of a gap. -/
inductive IsGap : List Char → Prop
  | nil : IsGap []
  | blank {c : Char} {cs : List Char} (hc : isBlank c = true) (h : IsGap cs) : IsGap (c :: cs)
  | line {line cs : List Char} (hline : '\n' ∉ line) (h : IsGap cs) :
    IsGap ('/' :: '/' :: line ++ '\n' :: cs)
  | comment {body cs : List Char} (hbody : CommentBody body) (h : IsGap cs) :
    IsGap ('/' :: '*' :: body ++ cs)

/-- A comment that is not finished. -/
inductive OpenComment : List Char → Prop
  | line {line : List Char} (hline : '\n' ∉ line) : OpenComment ('/' :: '/' :: line)
  | block {body : List Char} (hbody : OpenBody body) : OpenComment ('/' :: '*' :: body)

/-- The text behind the last token. -/
def IsLastGap (cs : List Char) : Prop :=
  IsGap cs ∨ ∃ gap comment, cs = gap ++ comment ∧ IsGap gap ∧ OpenComment comment

theorem IsGap.append {cs ds : List Char} (h : IsGap cs) (k : IsGap ds) : IsGap (cs ++ ds) := by
  induction h with
  | nil => exact k
  | blank hc _ ih => exact .blank hc ih
  | @line line cs hline _ ih =>
    rw [List.append_assoc, List.cons_append]
    exact .line hline ih
  | @comment body cs hbody _ ih =>
    rw [List.append_assoc]
    exact .comment hbody ih

theorem IsGap.append_last {cs ds : List Char} (h : IsGap cs) (k : IsLastGap ds) :
    IsLastGap (cs ++ ds) := by
  rcases k with k | ⟨gap, comment, rfl, hgap, hcomment⟩
  · exact .inl (h.append k)
  · exact .inr ⟨cs ++ gap, comment, (List.append_assoc ..).symm, h.append hgap, hcomment⟩

/-! ### What the lexer passes over -/

/-- A gap, or the text behind the last token if the text ends there. -/
def GapUpTo (ends : Prop) (cs : List Char) : Prop :=
  IsGap cs ∨ ends ∧ IsLastGap cs

/-- What leads out of `depth` block comments and through the rest of a gap. -/
def LeadsOut (ends : Prop) : Nat → List Char → Prop
  | 0, cs => GapUpTo ends cs
  | depth + 1, cs =>
    (∃ body after, cs = body ++ after ∧ CommentBody body ∧ LeadsOut ends depth after) ∨
      ends ∧ OpenBody cs

/-- What the lexer passes over from a place inside a gap; `ends` tells that the text ends there. -/
def Passes (ends : Prop) : Gap → List Char → Prop
  | .blank, cs => GapUpTo ends cs
  | .lineComment, cs =>
    (∃ line after, cs = line ++ '\n' :: after ∧ '\n' ∉ line ∧ GapUpTo ends after) ∨
      ends ∧ '\n' ∉ cs
  | .opening depth, cs =>
    (∃ c after, cs = c :: after ∧ LeadsOut ends (depth + 1) after) ∨ ends ∧ cs = []
  | .blockComment depth, cs => LeadsOut ends (depth + 1) cs
  | .closing depth, cs =>
    (∃ c after, cs = c :: after ∧ LeadsOut ends depth after) ∨ ends ∧ cs = []

section
variable {ends : Prop} {cs : List Char}

theorem GapUpTo.of_isGap {gap : List Char} (h : IsGap gap) (k : GapUpTo ends cs) :
    GapUpTo ends (gap ++ cs) := by
  rcases k with k | ⟨hends, k⟩
  · exact .inl (h.append k)
  · exact .inr ⟨hends, h.append_last k⟩

theorem gapUpTo_of_line (h : Passes ends .lineComment ('/' :: cs)) :
    GapUpTo ends ('/' :: '/' :: cs) := by
  rcases h with ⟨line, after, heq, hline, hafter⟩ | ⟨hends, hline⟩
  · cases line with
    | nil => cases heq
    | cons c line =>
      obtain ⟨rfl, rfl⟩ := List.cons.inj heq
      have hgap := IsGap.line (fun h => hline (List.mem_cons_of_mem _ h)) .nil
      simpa using GapUpTo.of_isGap hgap hafter
  · exact .inr ⟨hends, .inr ⟨[], _, rfl, .nil, .line fun h => hline (List.mem_cons_of_mem _ h)⟩⟩

theorem gapUpTo_of_leadsOut (h : LeadsOut ends 1 cs) : GapUpTo ends ('/' :: '*' :: cs) := by
  rcases h with ⟨body, after, rfl, hbody, hafter⟩ | ⟨hends, hopen⟩
  · have hgap := IsGap.comment hbody .nil
    rw [List.append_nil] at hgap
    exact GapUpTo.of_isGap hgap hafter
  · exact .inr ⟨hends, .inr ⟨[], _, rfl, .nil, .block hopen⟩⟩

/-- The text of a comment is not empty, so the character behind a plain one is part of it. -/
theorem head?_commentBody_append {body : List Char} (h : CommentBody body) (cs : List Char) :
    (body ++ cs).head? = body.head? := by
  cases h <;> rfl

theorem leadsOut_plain {c : Char} {depth : Nat} (hc : ¬ IsMark c cs.head?)
    (h : LeadsOut ends (depth + 1) cs) : LeadsOut ends (depth + 1) (c :: cs) := by
  rcases h with ⟨body, after, rfl, hbody, hafter⟩ | ⟨hends, hopen⟩
  · rw [head?_commentBody_append hbody] at hc
    exact .inl ⟨c :: body, after, rfl, .plain hc hbody, hafter⟩
  · exact .inr ⟨hends, .plain hc hopen⟩

theorem leadsOut_opening {depth : Nat} (h : LeadsOut ends (depth + 2) cs) :
    LeadsOut ends (depth + 1) ('/' :: '*' :: cs) := by
  rcases h with ⟨inner, after, rfl, hinner, hafter⟩ | ⟨hends, hopen⟩
  · rcases hafter with ⟨body, after, rfl, hbody, hafter⟩ | ⟨hends, hopen⟩
    · refine .inl ⟨'/' :: '*' :: inner ++ body, after, ?_, .nested hinner hbody, hafter⟩
      simp only [List.cons_append, List.append_assoc]
    · exact .inr ⟨hends, .nested hinner hopen⟩
  · exact .inr ⟨hends, .opening hopen⟩

theorem leadsOut_closing {depth : Nat} (h : LeadsOut ends depth cs) :
    LeadsOut ends (depth + 1) ('*' :: '/' :: cs) :=
  .inl ⟨['*', '/'], cs, rfl, .close, h⟩

end

/-! ### Passing over one character -/

/-- Inside a comment something is left to pass over, unless the text ends there. -/
theorem head?_append_of_passes {gap : Gap} {passed rest : List Char} (hgap : gap ≠ .blank)
    (h : Passes (rest = []) gap passed) : (passed ++ rest).head? = passed.head? := by
  cases gap with
  | blank => exact absurd rfl hgap
  | lineComment =>
    rcases h with ⟨line, after, rfl, -, -⟩ | ⟨rfl, -⟩
    · cases line <;> rfl
    · rw [List.append_nil]
  | opening depth | closing depth =>
    rcases h with ⟨c, after, rfl, -⟩ | ⟨rfl, -⟩
    · rfl
    · rw [List.append_nil]
  | blockComment depth =>
    rcases h with ⟨body, after, rfl, hbody, -⟩ | ⟨rfl, -⟩
    · rw [List.append_assoc, head?_commentBody_append hbody, head?_commentBody_append hbody]
    · rw [List.append_nil]

section
variable {ends : Prop} {next : Gap} {c : Char} {cs : List Char}

theorem passes_blank (hnext : Gap.blank.next? c cs.head? = some next) (h : Passes ends next cs) :
    GapUpTo ends (c :: cs) := by
  simp only [Gap.next?] at hnext
  split at hnext
  · rename_i hblank
    cases hnext
    exact GapUpTo.of_isGap (.blank hblank .nil) h
  · split at hnext
    · rename_i hline
      cases hnext
      obtain ⟨rfl, hhead⟩ := hline
      obtain ⟨cs, rfl⟩ := List.head?_eq_some_iff.1 hhead
      exact gapUpTo_of_line h
    · split at hnext
      · rename_i hopening
        cases hnext
        obtain ⟨rfl, hhead⟩ := hopening
        obtain ⟨cs, rfl⟩ := List.head?_eq_some_iff.1 hhead
        rcases h with ⟨d, after, heq, hafter⟩ | ⟨-, hnil⟩
        · obtain ⟨rfl, rfl⟩ := List.cons.inj heq
          exact gapUpTo_of_leadsOut hafter
        · cases hnil
      · cases hnext

theorem passes_lineComment (hnext : Gap.lineComment.next? c cs.head? = some next)
    (h : Passes ends next cs) : Passes ends .lineComment (c :: cs) := by
  obtain rfl := Option.some.inj hnext
  by_cases hc : c = '\n'
  · subst hc
    exact .inl ⟨[], cs, rfl, List.not_mem_nil, h⟩
  · rw [if_neg hc] at h
    rcases h with ⟨line, after, rfl, hline, hafter⟩ | ⟨hends, hline⟩
    · have hcons := List.not_mem_cons_of_ne_of_not_mem (Ne.symm hc) hline
      exact .inl ⟨c :: line, after, rfl, hcons, hafter⟩
    · exact .inr ⟨hends, List.not_mem_cons_of_ne_of_not_mem (Ne.symm hc) hline⟩

theorem passes_blockComment {depth : Nat}
    (hnext : (Gap.blockComment depth).next? c cs.head? = some next) (h : Passes ends next cs) :
    LeadsOut ends (depth + 1) (c :: cs) := by
  simp only [Gap.next?] at hnext
  split at hnext
  · rename_i hclosing
    cases hnext
    obtain ⟨rfl, hhead⟩ := hclosing
    obtain ⟨cs, rfl⟩ := List.head?_eq_some_iff.1 hhead
    rcases h with ⟨d, after, heq, hafter⟩ | ⟨-, hnil⟩
    · obtain ⟨rfl, rfl⟩ := List.cons.inj heq
      exact leadsOut_closing hafter
    · cases hnil
  · rename_i hclosing
    split at hnext
    · rename_i hopening
      cases hnext
      obtain ⟨rfl, hhead⟩ := hopening
      obtain ⟨cs, rfl⟩ := List.head?_eq_some_iff.1 hhead
      rcases h with ⟨d, after, heq, hafter⟩ | ⟨-, hnil⟩
      · obtain ⟨rfl, rfl⟩ := List.cons.inj heq
        exact leadsOut_opening hafter
      · cases hnil
    · rename_i hopening
      cases hnext
      exact leadsOut_plain (fun hmark => hmark.elim hclosing hopening) h

/-- What leads out of the place behind a character leads, with it, out of its own place. -/
theorem passes_cons {gap : Gap} (hnext : gap.next? c cs.head? = some next)
    (h : Passes ends next cs) : Passes ends gap (c :: cs) := by
  cases gap with
  | blank => exact passes_blank hnext h
  | lineComment => exact passes_lineComment hnext h
  | opening depth =>
    obtain rfl := Option.some.inj hnext
    exact .inl ⟨c, cs, rfl, h⟩
  | blockComment depth => exact passes_blockComment hnext h
  | closing depth =>
    cases depth <;> (obtain rfl := Option.some.inj hnext; exact .inl ⟨c, cs, rfl, h⟩)

end

/-- The character behind a blank one decides nothing. -/
theorem next?_of_next?_eq_blank {gap : Gap} {c : Char} {ahead? : Option Char}
    (h : gap.next? c ahead? = some .blank) (other? : Option Char) :
    gap.next? c other? = some .blank := by
  cases gap with
  | blank => simp only [Gap.next?] at h ⊢; grind
  | lineComment => exact h
  | opening depth => exact h
  | blockComment depth => simp only [Gap.next?] at h; grind
  | closing depth => cases depth <;> exact h

/-- The lexer passes over a text that leads out of the gap, and counts every character of it. -/
theorem exists_passed (gap : Gap) (cs : List Char) (p : Position) :
    ∃ passed, cs = passed ++ (skipGapFrom gap cs p).rest ∧
      (skipGapFrom gap cs p).position = p.advance passed ∧
      Passes ((skipGapFrom gap cs p).rest = []) gap passed := by
  fun_induction skipGapFrom gap cs p with
  | case1 gap p =>
    refine ⟨[], rfl, rfl, ?_⟩
    cases gap with
    | blank => exact .inl .nil
    | lineComment => exact .inr ⟨rfl, by simp⟩
    | opening depth => exact .inr ⟨rfl, rfl⟩
    | blockComment depth => exact .inr ⟨rfl, .nil⟩
    | closing depth => exact .inr ⟨rfl, rfl⟩
  | case2 gap c cs p next h ih =>
    obtain ⟨passed, heq, hposition, hpasses⟩ := ih
    refine ⟨c :: passed, ?_, hposition, ?_⟩
    · exact congrArg (c :: ·) heq
    · rw [heq] at h
      by_cases hnext : next = .blank
      · subst hnext
        exact passes_cons (next?_of_next?_eq_blank h _) hpasses
      · rw [head?_append_of_passes hnext hpasses] at h
        exact passes_cons h hpasses
  | case3 gap c cs p h =>
    obtain rfl := Gap.eq_blank_of_next?_eq_none h
    exact ⟨[], rfl, rfl, .inl .nil⟩

/-- The lexer passes over a gap, or over all the rest behind the last token. -/
theorem exists_gap (lexer : Lexer) :
    ∃ gap, lexer.rest = gap ++ lexer.skipGap.rest ∧
      lexer.skipGap.position = lexer.position.advance gap ∧
      (IsGap gap ∨ lexer.skipGap.rest = [] ∧ IsLastGap gap) :=
  exists_passed .blank lexer.rest lexer.position

end MiniPL.Lexer
