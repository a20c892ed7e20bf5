import Mathlib.Data.List.DropRight
import MiniPL.Proofs.Splitting
import MiniPL.Text.Lines

/-!
# Places and lines

The place of a character tells the line that holds it: as many line feeds stand in front of it as
there are lines before, and its column is at most the length of that line.

Main statements: `Text.drop_cutAfter` (the lines from the one on that a place is in),
`Lexer.exists_start`, by which a token is placed at a character that is not blank, and
`Lexer.exists_line_of_mem_tokenize`.
-/

namespace MiniPL

namespace Text

/-! ### The line of a place -/

/-- The stretch of a text behind its last line feed. -/
def lastStretch (cs : List Char) : List Char :=
  cs.rtakeWhile fun c => c != '\n'

@[simp] theorem lastStretch_concat_lineFeed (cs : List Char) : lastStretch (cs ++ ['\n']) = [] := by
  unfold lastStretch
  rw [List.rtakeWhile_concat]
  rfl

theorem lastStretch_concat {c : Char} (h : c ≠ '\n') (cs : List Char) :
    lastStretch (cs ++ [c]) = lastStretch cs ++ [c] := by
  unfold lastStretch
  rw [List.rtakeWhile_concat, if_pos (bne_iff_ne.2 h)]

/-- The lines from the one on that the end of `front` is in. -/
theorem drop_cutAfter (front : List Char) {cs piece : List Char} {pieces : List (List Char)}
    (h : cutAfter (· == '\n') cs = piece :: pieces) :
    (cutAfter (· == '\n') (front ++ cs)).drop (front.count '\n') =
      (lastStretch front ++ piece) :: pieces := by
  induction front using List.reverseRecOn generalizing cs piece pieces with
  | nil => exact h
  | append_singleton front c ih =>
    rw [List.append_assoc, List.singleton_append, List.count_append]
    by_cases hc : c = '\n'
    · subst hc
      have hcut : cutAfter (· == '\n') ('\n' :: cs) = ['\n'] :: piece :: pieces := by
        simp [cutAfter, h]
      have hdrop := congrArg (List.drop 1) (ih hcut)
      rw [List.drop_drop] at hdrop
      simpa using hdrop
    · have hcut : cutAfter (· == '\n') (c :: cs) = (c :: piece) :: pieces := by
        rw [cutAfter, if_neg (by simpa using hc), h]
      rw [lastStretch_concat hc, List.append_assoc, List.singleton_append, ← ih hcut]
      simp [hc]

theorem exists_cutAfter_cons {c : Char} (hc : c ≠ '\n') (cs : List Char) :
    ∃ more pieces, cutAfter (· == '\n') (c :: cs) = (c :: more) :: pieces := by
  rw [cutAfter, if_neg (by simpa using hc)]
  cases cutAfter (· == '\n') cs with
  | nil => exact ⟨[], [], rfl⟩
  | cons piece pieces => exact ⟨piece, pieces, rfl⟩

/-- The line end stands behind every character that is not part of one. -/
theorem length_lt_dropLineEnd {c : Char} (hfeed : c ≠ '\n') (hreturn : c ≠ '\r')
    (stretch more : List Char) :
    stretch.length < (dropLineEnd (stretch ++ c :: more)).length := by
  unfold dropLineEnd
  rcases List.eq_nil_or_concat more with rfl | ⟨more, x, rfl⟩
  · rw [List.getLast?_concat, if_neg (by simpa using hfeed), List.length_append]
    exact Nat.lt_succ_self _
  have hconcat : ∀ more x, stretch ++ c :: List.concat more x = stretch ++ c :: more ++ [x] := by
    simp
  rw [hconcat, List.dropLast_concat]
  split
  · split
    · rename_i hlast
      rcases List.eq_nil_or_concat more with rfl | ⟨more, y, rfl⟩
      · rw [List.getLast?_concat] at hlast
        exact absurd (Option.some.inj hlast) hreturn
      · rw [hconcat, List.dropLast_concat, List.length_append, List.length_cons]
        omega
    · rw [List.length_append, List.length_cons]
      omega
  · rw [List.length_append, List.length_append, List.length_cons]
    omega

/-- A character that is not part of a line end stands in the line that its place tells. -/
theorem exists_line_of_placeAfter {source : String} {front cs : List Char} {c : Char}
    (hsource : source.toList = front ++ c :: cs) (hfeed : c ≠ '\n') (hreturn : c ≠ '\r') :
    ∃ line, (lines source)[(placeAfter front).line - 1]? = some line ∧
      (placeAfter front).column ≤ line.length := by
  obtain ⟨more, pieces, hcut⟩ := exists_cutAfter_cons hfeed cs
  have hline : (cutAfter (· == '\n') source.toList)[front.count '\n']? =
      some (lastStretch front ++ c :: more) := by
    rw [hsource, ← List.head?_drop, drop_cutAfter front hcut, List.head?_cons]
  have hcolumn : (placeAfter front).column = 1 + (lastStretch front).length := by
    simp [placeAfter, lastStretch, List.rtakeWhile]
  refine ⟨String.ofList (dropLineEnd (lastStretch front ++ c :: more)), ?_, ?_⟩
  · rw [lines, List.getElem?_map, placeAfter, Nat.add_sub_cancel_left, hline, Option.map_some]
  · rw [hcolumn, String.length_ofList, Nat.add_comm]
    exact length_lt_dropLineEnd hfeed hreturn _ _

/-! ### The text of lines -/

/-- The text of some lines, with a line feed behind each. -/
def unlines (lines : List String) : String :=
  String.join (lines.map (· ++ "\n"))

@[simp] theorem unlines_nil : unlines [] = "" := rfl

@[simp] theorem toList_unlines_cons (line : String) (lines : List String) :
    (unlines (line :: lines)).toList = line.toList ++ '\n' :: (unlines lines).toList := by
  simp [unlines, String.toList_join]

theorem unlines_append (lines lines' : List String) :
    unlines (lines ++ lines') = unlines lines ++ unlines lines' := by
  rw [← String.toList_inj, String.toList_append]
  induction lines with
  | nil => rfl
  | cons line lines ih => simp [ih]

/-- No stretch is left over behind whole lines. -/
theorem lastStretch_unlines (lines : List String) : lastStretch (unlines lines).toList = [] := by
  induction lines using List.reverseRecOn with
  | nil => rfl
  | append_singleton lines line =>
    rw [unlines_append, String.toList_append, toList_unlines_cons, unlines_nil, String.toList_empty,
      ← List.append_assoc, lastStretch_concat_lineFeed]

/-- Lists are told apart in front of the first element of a kind. -/
theorem append_cons_inj {α : Type} {a : α} {xs ys zs ws : List α} (hxs : a ∉ xs) (hys : a ∉ ys)
    (h : xs ++ a :: zs = ys ++ a :: ws) : xs = ys ∧ zs = ws := by
  induction xs generalizing ys with
  | nil =>
    cases ys with
    | nil => exact ⟨rfl, (List.cons.inj h).2⟩
    | cons y ys => exact absurd ((List.cons.inj h).1 ▸ List.mem_cons_self) hys
  | cons x xs ih =>
    cases ys with
    | nil => exact absurd ((List.cons.inj h).1 ▸ List.mem_cons_self) hxs
    | cons y ys =>
      obtain ⟨rfl, htail⟩ := List.cons.inj h
      obtain ⟨rfl, rfl⟩ := ih (fun hmem => hxs (List.mem_cons_of_mem _ hmem))
        (fun hmem => hys (List.mem_cons_of_mem _ hmem)) htail
      exact ⟨rfl, rfl⟩

/-- Lines without line feeds are told apart by their text. -/
theorem unlines_inj {lines lines' : List String} (h : ∀ line ∈ lines, '\n' ∉ line.toList)
    (h' : ∀ line ∈ lines', '\n' ∉ line.toList) (heq : unlines lines = unlines lines') :
    lines = lines' := by
  replace heq := congrArg String.toList heq
  induction lines generalizing lines' with
  | nil =>
    cases lines' with
    | nil => rfl
    | cons line' lines' => simp at heq
  | cons line lines ih =>
    cases lines' with
    | nil => simp at heq
    | cons line' lines' =>
      obtain ⟨hline, h⟩ := List.forall_mem_cons.1 h
      obtain ⟨hline', h'⟩ := List.forall_mem_cons.1 h'
      rw [toList_unlines_cons, toList_unlines_cons] at heq
      obtain ⟨hfirst, hrest⟩ := append_cons_inj hline hline' heq
      rw [String.toList_inj.1 hfirst, ih h h' hrest]

end Text

namespace Lexer

open Text (isBlank)

/-! ### The places of tokens -/

/-- The gap ends in front of a character that is not blank. -/
theorem isBlank_skipGapFrom {gap : Gap} {cs rest : List Char} {p q : Position} {c : Char}
    (h : skipGapFrom gap cs p = ⟨c :: rest, q⟩) : isBlank c = false := by
  fun_induction skipGapFrom gap cs p with
  | case1 => cases h
  | case2 gap c cs p next hnext ih => exact ih h
  | case3 gap c cs p hnext =>
    cases h
    obtain rfl := Gap.eq_blank_of_next?_eq_none hnext
    rw [Gap.next?] at hnext
    split at hnext
    · cases hnext
    · rename_i hblank
      exact eq_false_of_ne_true hblank

/-- A token is placed where it starts, at a character that is not blank. -/
theorem exists_start (lexer : Lexer) (before : List Char)
    (hposition : lexer.position = placeAfter before) :
    ∀ token ∈ lexer.tokens, ∃ front c cs, before ++ lexer.rest = front ++ c :: cs ∧
      token.position = placeAfter front ∧ isBlank c = false := by
  fun_induction Lexer.tokens lexer generalizing before with
  | case1 lexer h => exact fun _ hmem => (List.not_mem_nil hmem).elim
  | case2 lexer token after h ih =>
    obtain ⟨gap, hgap, hskip, -⟩ := lexer.exists_gap
    obtain ⟨raw, hraw, hne, hafter, htoken, -⟩ := scans_of_next?_eq_some h
    rw [hposition, advance_placeAfter] at hskip
    rw [hskip, advance_placeAfter] at hafter
    refine List.forall_mem_cons.2 ⟨?_, fun other hmem => ?_⟩
    · cases hrest : lexer.skipGap.rest with
      | nil =>
        rw [hrest] at hraw
        exact absurd (List.append_eq_nil_iff.1 hraw.symm).1 hne
      | cons c cs =>
        refine ⟨before ++ gap, c, cs, ?_, htoken.trans hskip, ?_⟩
        · rw [hgap, hrest, List.append_assoc]
        · have hskip' : lexer.skipGap = ⟨c :: cs, lexer.skipGap.position⟩ := by rw [← hrest]
          exact isBlank_skipGapFrom hskip'
    · obtain ⟨front, c, cs, heq, hplace, hblank⟩ := ih _ hafter other hmem
      refine ⟨front, c, cs, ?_, hplace, hblank⟩
      rw [← heq, hgap, hraw, List.append_assoc, List.append_assoc]

/-- A token stands in the line that its place tells. -/
theorem exists_line_of_mem_tokenize {source : String} {token : Token}
    (h : token ∈ tokenize source) :
    1 ≤ token.position.line ∧ 1 ≤ token.position.column ∧
      ∃ line, (Text.lines source)[token.position.line - 1]? = some line ∧
        token.position.column ≤ line.length := by
  obtain ⟨front, c, cs, hsource, hposition, hblank⟩ := exists_start (.ofText source) [] rfl token h
  have hfeed : c ≠ '\n' := by
    rintro rfl
    exact absurd hblank (by decide)
  have hreturn : c ≠ '\r' := by
    rintro rfl
    exact absurd hblank (by decide)
  rw [hposition]
  exact ⟨Nat.le_add_right 1 _, Nat.le_add_right 1 _,
    Text.exists_line_of_placeAfter hsource hfeed hreturn⟩

end Lexer

end MiniPL
