import MiniPL.Proofs.Cutting
import MiniPL.Proofs.Lines

/-!
# How far a text moves what stands behind it

Behind another text, a place of a text is as many lines lower as the text in front has line feeds
and, in the first line, as many columns further right as characters stand behind the last of them
(`Position.shifted`).  This is where the tokens of the text stand then (`map_moved_behind`), and if
the text in front is a gap, there are no others (`tokenize_behind_gap`).
-/

namespace MiniPL

namespace Position

/-- The place of what stands at `p` in a text, if `front` stands in front of the text. -/
def shifted (front : List Char) (p : Position) : Position :=
  ⟨p.line + front.count '\n',
    if p.line = 1 then p.column + (Text.lastStretch front).length else p.column⟩

/-- The place some lines lower, in the same column. -/
def lowered (lines : Nat) (p : Position) : Position :=
  ⟨p.line + lines, p.column⟩

theorem column_placeAfter (front : List Char) :
    (placeAfter front).column = 1 + (Text.lastStretch front).length := by
  simp [placeAfter, Text.lastStretch, List.rtakeWhile]

theorem behind_placeAfter (front : List Char) {p : Position} (h : p.IsPlace) :
    (placeAfter front).behind p = p.shifted front := by
  obtain ⟨hline, hcolumn⟩ := h
  have hlineAfter : (placeAfter front).line = 1 + front.count '\n' := rfl
  unfold behind shifted
  rw [column_placeAfter, hlineAfter]
  by_cases hfirst : p.line = 1
  · rw [if_pos hfirst, if_pos hfirst, mk.injEq]
    omega
  · rw [if_neg hfirst, if_neg hfirst, mk.injEq]
    omega

/-- Behind a line feed every line is moved down as a whole. -/
theorem shifted_concat_lineFeed (front : List Char) :
    shifted (front ++ ['\n']) = lowered (1 + front.count '\n') := by
  funext p
  unfold shifted lowered
  rw [Text.lastStretch_concat_lineFeed, List.length_nil, Nat.add_zero, ite_self,
    List.count_append, List.count_singleton_self, Nat.add_comm 1]

end Position

theorem isPlace_of_mem_tokenize {text : String} {token : Token} (h : token ∈ tokenize text) :
    token.position.IsPlace := by
  obtain ⟨hline, hcolumn, -⟩ := Lexer.exists_line_of_mem_tokenize h
  exact ⟨hline, hcolumn⟩

/-- The tokens of a text, moved behind another text. -/
theorem map_moved_behind (front : List Char) (text : String) :
    (tokenize text).map (Token.moved (placeAfter front).behind) =
      (tokenize text).map (Token.moved (Position.shifted front)) := by
  refine List.map_congr_left fun token hmem => ?_
  unfold Token.moved
  rw [Position.behind_placeAfter front (isPlace_of_mem_tokenize hmem)]

/-- A gap moves the tokens behind it and does nothing else. -/
theorem tokenize_behind_gap {gap rest : String} (h : Lexer.GapStops gap.toList rest.toList) :
    tokenize (gap ++ rest) = (tokenize rest).map (Token.moved (Position.shifted gap.toList)) := by
  have htokens := h.tokens_append Position.start
  have hplace : Position.start.advance gap.toList = placeAfter gap.toList :=
    advance_placeAfter [] gap.toList
  have hrest := Lexer.tokens_eq_map_moved (placeAfter gap.toList) rest.toList
  rw [String.ofList_toList, map_moved_behind] at hrest
  rw [hplace, hrest, ← String.toList_append] at htokens
  exact htokens

theorem tokenize_of_isLastGap {text : String} (h : Lexer.IsLastGap text.toList) :
    tokenize text = [] :=
  (Lexer.GapStops.last h).tokens_eq_nil Position.start

end MiniPL
