import MiniPL.Proofs.Shifts

/-!
# Comments nested in comments

Between its two marks, a block comment holds stretches without marks and nested comments in turn
(`Lexer.IsInterior`).  Two neighbouring characters may look like a mark, as in `/*/` or `**/`; as
marks are read from the left, only the last character of a stretch can spoil the mark behind it.
These texts are exactly the bodies that the lexer passes over (`Lexer.isInterior_iff`).  In front of
a text such a comment moves the tokens and changes nothing else, and without its closing mark there
is no token at all.

Main statement: `tokenize_behind_comment`.
-/

namespace MiniPL

namespace Lexer

/-! ### Stretches without marks -/

/-- A stretch of a comment in which no mark stands. -/
structure IsStretch (cs : List Char) : Prop where
  opening : ¬ ['/', '*'] <:+: cs
  closing : ¬ ['*', '/'] <:+: cs

section
variable {c : Char} {cs body : List Char}

theorem isStretch_nil : IsStretch [] := by
  constructor <;> decide

theorem pair_prefix_cons_iff {d e : Char} :
    [d, e] <+: c :: cs ↔ c = d ∧ cs.head? = some e := by
  rw [List.cons_prefix_cons, eq_comm]
  refine and_congr_right fun _ => ?_
  cases cs with
  | nil => simp
  | cons f cs => simp [eq_comm]

theorem isStretch_cons_iff : IsStretch (c :: cs) ↔ ¬ IsMark c cs.head? ∧ IsStretch cs := by
  constructor
  · rintro ⟨hopening, hclosing⟩
    refine ⟨?_, fun h => hopening (List.infix_cons h), fun h => hclosing (List.infix_cons h)⟩
    rintro (hmark | hmark)
    · exact hclosing (pair_prefix_cons_iff.2 hmark).isInfix
    · exact hopening (pair_prefix_cons_iff.2 hmark).isInfix
  · rintro ⟨hmark, h⟩
    constructor
    · intro hopening
      rcases List.infix_cons_iff.1 hopening with hfront | hbehind
      · exact hmark (.inr (pair_prefix_cons_iff.1 hfront))
      · exact h.opening hbehind
    · intro hclosing
      rcases List.infix_cons_iff.1 hclosing with hfront | hbehind
      · exact hmark (.inl (pair_prefix_cons_iff.1 hfront))
      · exact h.closing hbehind

/-- What may be led by any plain character may be led by a stretch, unless the end of the stretch
makes a mark with it. -/
theorem IsStretch.append_induction {P : List Char → Prop}
    (hplain : ∀ {c cs}, ¬ IsMark c cs.head? → P cs → P (c :: cs)) (hcs : IsStretch cs)
    (hend : ∀ c, cs.getLast? = some c → ¬ IsMark c body.head?) (h : P body) : P (cs ++ body) := by
  induction cs with
  | nil => exact h
  | cons c cs ih =>
    obtain ⟨hmark, hcs⟩ := isStretch_cons_iff.1 hcs
    cases cs with
    | nil => exact hplain (hend c rfl) h
    | cons d cs => exact hplain hmark (ih hcs hend)

end

/-! ### What stands between the marks -/

/-- What may stand between the marks of a block comment: stretches and nested comments in turn. -/
inductive IsInterior : List Char → Prop
  | stretch {cs : List Char} (h : IsStretch cs) (hend : cs.getLast? ≠ some '/') : IsInterior cs
  | comment {cs inner behind : List Char} (h : IsStretch cs) (hend : cs.getLast? ≠ some '*')
    (hinner : IsInterior inner) (hbehind : IsInterior behind) :
    IsInterior (cs ++ ('/' :: '*' :: inner ++ '*' :: '/' :: behind))

theorem isMark_star_iff {c : Char} : IsMark c (some '*') ↔ c = '/' := by
  simp [IsMark]

theorem isMark_slash_iff {c : Char} : IsMark c (some '/') ↔ c = '*' := by
  simp [IsMark]

section
variable {c : Char} {cs body : List Char}

theorem IsInterior.commentBody (h : IsInterior cs) : CommentBody (cs ++ ['*', '/']) := by
  induction h with
  | stretch h hend =>
    refine h.append_induction .plain (fun c hc hmark => hend ?_) .close
    rw [hc, isMark_star_iff.1 hmark]
  | @comment cs inner behind h hend _ _ ihinner ihbehind =>
    have htext : cs ++ ('/' :: '*' :: inner ++ '*' :: '/' :: behind) ++ ['*', '/'] =
        cs ++ ('/' :: '*' :: (inner ++ ['*', '/']) ++ (behind ++ ['*', '/'])) := by simp
    rw [htext]
    refine h.append_induction .plain (fun c hc hmark => hend ?_) (.nested ihinner ihbehind)
    rw [hc, isMark_slash_iff.1 hmark]

theorem IsInterior.openBody (h : IsInterior cs) : OpenBody cs := by
  induction h with
  | @stretch cs h _ =>
    have hopen : OpenBody (cs ++ []) :=
      h.append_induction .plain (fun c _ hmark => by simp [IsMark] at hmark) .nil
    rwa [List.append_nil] at hopen
  | @comment cs inner behind h hend hinner _ _ ihbehind =>
    have htext : '/' :: '*' :: inner ++ '*' :: '/' :: behind =
        '/' :: '*' :: (inner ++ ['*', '/']) ++ behind := by simp
    rw [htext]
    refine h.append_induction .plain (fun c hc hmark => hend ?_)
      (.nested hinner.commentBody ihbehind)
    rw [hc, isMark_slash_iff.1 hmark]

/-- A plain character in front belongs to the first stretch. -/
theorem IsInterior.cons (h : IsInterior cs) (hc : ¬ IsMark c (cs ++ ['*', '/']).head?) :
    IsInterior (c :: cs) := by
  cases h with
  | stretch h hend =>
    cases cs with
    | nil =>
      refine .stretch (isStretch_cons_iff.2 ⟨by simp [IsMark], isStretch_nil⟩) fun hlast => hc ?_
      exact isMark_star_iff.2 (Option.some.inj hlast)
    | cons d cs => exact .stretch (isStretch_cons_iff.2 ⟨hc, h⟩) hend
  | @comment front inner behind h hend hinner hbehind =>
    rw [← List.cons_append]
    cases front with
    | nil =>
      refine .comment (isStretch_cons_iff.2 ⟨by simp [IsMark], h⟩) (fun hlast => hc ?_) hinner
        hbehind
      exact isMark_slash_iff.2 (Option.some.inj hlast)
    | cons d front => exact .comment (isStretch_cons_iff.2 ⟨hc, h⟩) hend hinner hbehind

theorem CommentBody.exists_isInterior (h : CommentBody body) :
    ∃ inside, body = inside ++ ['*', '/'] ∧ IsInterior inside := by
  induction h with
  | close => exact ⟨[], rfl, .stretch isStretch_nil (by decide)⟩
  | @plain c body hc _ ih =>
    obtain ⟨inside, rfl, hinside⟩ := ih
    exact ⟨c :: inside, rfl, hinside.cons hc⟩
  | nested _ _ ihinner ih =>
    obtain ⟨inner, rfl, hinner⟩ := ihinner
    obtain ⟨behind, rfl, hbehind⟩ := ih
    exact ⟨'/' :: '*' :: inner ++ '*' :: '/' :: behind, by simp,
      .comment isStretch_nil (by decide) hinner hbehind⟩

/-- What stands in front of a closing mark is just what the lexer reads as the body of a comment. -/
theorem isInterior_iff : IsInterior cs ↔ CommentBody (cs ++ ['*', '/']) := by
  refine ⟨IsInterior.commentBody, fun h => ?_⟩
  obtain ⟨inside, htext, hinside⟩ := h.exists_isInterior
  rwa [List.append_cancel_right htext]

end

end Lexer

/-- A block comment, with any comments nested in it, moves the tokens behind it by its line feeds
and characters and does nothing else; without its closing mark and anything behind, it holds no
token. -/
theorem tokenize_behind_comment {inside : String} (h : Lexer.IsInterior inside.toList)
    (rest : String) :
    let comment := "/*" ++ inside ++ "*/"
    tokenize (comment ++ rest) =
        (tokenize rest).map (Token.moved (Position.shifted comment.toList)) ∧
      tokenize ("/*" ++ inside) = [] := by
  intro comment
  have hcomment : comment.toList = '/' :: '*' :: (inside.toList ++ ['*', '/']) := by
    simp [comment]
  have hopen : ("/*" ++ inside).toList = '/' :: '*' :: inside.toList := by simp
  constructor
  · have hgap := Lexer.IsGap.comment h.commentBody .nil
    rw [List.append_nil, ← hcomment] at hgap
    exact tokenize_behind_gap (.gap hgap)
  · have hlast : Lexer.IsLastGap ('/' :: '*' :: inside.toList) :=
      .inr ⟨[], _, rfl, .nil, .block h.openBody⟩
    rw [← hopen] at hlast
    exact tokenize_of_isLastGap hlast

/-- Characters beside the marks that look like parts of other marks, a string that is not closed,
and a line feed; what stands behind starts like the end of a comment. -/
theorem tokenize_behind_comment_of_near_marks :
    let inside := "/ a /**/*\n/* // **/ \"x *"
    let comment := "/*" ++ inside ++ "*/"
    let rest := "*/ 2;\nprint x;"
    Lexer.IsInterior inside.toList ∧ comment.toList.count '\n' = 1 ∧
      (Text.lastStretch comment.toList).length = 16 ∧
      tokenize (comment ++ rest) =
        (tokenize rest).map (Token.moved (Position.shifted comment.toList)) ∧
      tokenize ("/*" ++ inside) = [] := by
  intro inside comment rest
  have hinterior : Lexer.IsInterior inside.toList := by
    have hlast : Lexer.IsInterior " \"x *".toList := .stretch ⟨by decide, by decide⟩ (by decide)
    have hinner : Lexer.IsInterior " // *".toList := .stretch ⟨by decide, by decide⟩ (by decide)
    have hempty : Lexer.IsInterior [] := .stretch Lexer.isStretch_nil (by decide)
    have htext : inside.toList = "/ a ".toList ++ ('/' :: '*' :: [] ++ '*' :: '/' ::
        ("*\n".toList ++ ('/' :: '*' :: " // *".toList ++ '*' :: '/' :: " \"x *".toList))) := by
      decide
    rw [htext]
    exact .comment ⟨by decide, by decide⟩ (by decide) hempty
      (.comment ⟨by decide, by decide⟩ (by decide) hinner hlast)
  obtain ⟨htokens, hopen⟩ := tokenize_behind_comment hinterior rest
  exact ⟨hinterior, by decide, by decide, htokens, hopen⟩

end MiniPL
