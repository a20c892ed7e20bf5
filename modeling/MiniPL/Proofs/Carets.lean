import MiniPL.Diagnostic.Report
import MiniPL.Parser.Program
import MiniPL.Proofs.Lines
import MiniPL.Proofs.Words

/-!
# Where the caret of a report stands

A report shows the source line behind the number of the line and, in the line below it, a caret
behind as many characters as the column tells.  The number is written at least three characters wide
and with a blank behind it, while the line of the caret starts with three blanks and no number; so
the caret stands at least one place to the left of the column, and one more for each digit of the
number beyond the third.

Main statements: `Diagnostic.caret_left_of_column`, `Diagnostic.not_caret_below_column`.
-/

namespace MiniPL

namespace Text

/-! ### Lines one below the other -/

/-- Line `i` of a text, counted from zero, is this one. -/
def HasLine (text : String) (i : Nat) (line : String) : Prop :=
  (cutAfter (· == '\n') text.toList)[i]? = some (line.toList ++ ['\n'])

/-- In one line of a text stands `line`, behind `lead` characters, and in the line below it a caret,
behind `indent` characters that are no carets. -/
def ShowsCaret (text line : String) (lead indent : Nat) : Prop :=
  ∃ i number space, HasLine text i (number ++ line) ∧ HasLine text (i + 1) (space ++ "^") ∧
    number.length = lead ∧ space.length = indent ∧ '^' ∉ space.toList

/-- How long the lines of a text are, line feeds included, and which of them end with a caret. -/
def outlineOf (text : String) : List (Nat × Bool) :=
  (cutAfter (· == '\n') text.toList).map fun piece =>
    (piece.length, piece.dropLast.getLast? == some '^')

theorem ShowsCaret.exists_outline {text line : String} {lead indent : Nat}
    (h : ShowsCaret text line lead indent) :
    ∃ i, (outlineOf text)[i]?.map Prod.fst = some (lead + line.length + 1) ∧
      (outlineOf text)[i + 1]? = some (indent + 2, true) := by
  obtain ⟨i, number, space, hnumbered, hcaret, rfl, rfl, -⟩ := h
  unfold HasLine at hnumbered hcaret
  refine ⟨i, ?_, ?_⟩
  · rw [outlineOf, List.getElem?_map, hnumbered]
    simp [String.length_toList, Nat.add_assoc]
  · rw [outlineOf, List.getElem?_map, hcaret]
    simp [String.length_toList]

theorem cutAfter_feedless {line : List Char} (h : '\n' ∉ line) (rest : List Char) :
    cutAfter (· == '\n') (line ++ '\n' :: rest) =
      (line ++ ['\n']) :: cutAfter (· == '\n') rest := by
  have hcut : cutAfter (· == '\n') ('\n' :: rest) = ['\n'] :: cutAfter (· == '\n') rest := rfl
  by_cases hne : line = []
  · rw [hne]
    exact hcut
  · have hfeedless : ∀ c ∈ line, (c == '\n') = false := by
      intro c hc
      refine beq_eq_false_iff_ne.2 ?_
      rintro rfl
      exact h hc
    rw [cutAfter_append hne hfeedless, hcut]

/-- Two lines behind others are lines of the text, whatever the others hold. -/
theorem hasLine_unlines (before after : List String) {upper lower : String}
    (hupper : '\n' ∉ upper.toList) (hlower : '\n' ∉ lower.toList) :
    let text := unlines (before ++ upper :: lower :: after)
    let i := (unlines before).toList.count '\n'
    HasLine text i upper ∧ HasLine text (i + 1) lower := by
  intro text i
  have htext : text.toList = (unlines before).toList ++
      (upper.toList ++ '\n' :: (lower.toList ++ '\n' :: (unlines after).toList)) := by
    show (unlines (before ++ upper :: lower :: after)).toList = _
    rw [unlines_append, String.toList_append, toList_unlines_cons, toList_unlines_cons]
  have hcut := cutAfter_feedless hupper (lower.toList ++ '\n' :: (unlines after).toList)
  rw [cutAfter_feedless hlower] at hcut
  have hdrop := drop_cutAfter (unlines before).toList hcut
  rw [← htext, lastStretch_unlines, List.nil_append] at hdrop
  unfold HasLine
  constructor
  · rw [← List.head?_drop, hdrop, List.head?_cons]
  · rw [← List.getElem?_drop, hdrop]
    rfl

end Text

open Text (unlines HasLine ShowsCaret)

namespace Diagnostic

/-! ### Reports without colours -/

theorem report_plain (d : Diagnostic) : d.report .plain = unlines (d.reportLines .plain) :=
  rfl

/-- What stands in front of the source line. -/
def lead (d : Diagnostic) : String :=
  lineNumber d.position.line ++ " " ++ "|" ++ " "

/-- What stands in front of the caret. -/
def indent (d : Diagnostic) : String :=
  "   " ++ "|" ++ " " ++ String.ofList (List.replicate (d.position.column - 1) ' ')

theorem exists_reportLines {d : Diagnostic} {line : String} (h : d.sourceLine = some line) :
    ∃ before after,
      d.reportLines .plain = before ++ (d.lead ++ line) :: (d.indent ++ "^") :: after := by
  refine ⟨[d.kind.text ++ ": " ++ d.message, "  --> " ++ d.place, "   " ++ "|"], ?_⟩
  rw [reportLines, h]
  exact ⟨_, rfl⟩

theorem length_lead (d : Diagnostic) :
    d.lead.length = max 3 (Nat.toDigits 10 d.position.line).length + 3 := by
  simp only [lead, lineNumber, String.length_append, String.length_ofList, List.length_append,
    List.length_replicate]
  have hblank : " ".length = 1 := rfl
  have hbar : "|".length = 1 := rfl
  omega

theorem length_indent (d : Diagnostic) : d.indent.length = d.position.column - 1 + 5 := by
  simp only [indent, String.length_append, String.length_ofList, List.length_replicate]
  have hblank : " ".length = 1 := rfl
  have hbar : "|".length = 1 := rfl
  have hblanks : "   ".length = 3 := rfl
  omega

theorem lineFeed_notMem_lead (d : Diagnostic) : '\n' ∉ d.lead.toList := by
  have hdigits : '\n' ∉ Nat.toDigits 10 d.position.line := fun hmem =>
    absurd (Nat.isDigit_of_mem_toDigits (by decide) (by decide) hmem) (by decide)
  simp [lead, lineNumber, hdigits]

theorem notMem_indent {c : Char} (hblank : c ≠ ' ') (hbar : c ≠ '|') (d : Diagnostic) :
    c ∉ d.indent.toList := by
  simp [indent, hblank, hbar]

/-- In a report without colours, the source line stands behind its number, written at least three
wide, and three more characters, and the caret stands behind five characters and one for each column
in front of its own.  So the caret is one place to the left of the column, and one more for each
digit of the line number beyond the third. -/
theorem caret_left_of_column {d : Diagnostic} {line : String} (hline : d.sourceLine = some line)
    (hfeed : '\n' ∉ line.toList) :
    let digits := (Nat.toDigits 10 d.position.line).length
    let lead := max 3 digits + 3
    let indent := d.position.column - 1 + 5
    ShowsCaret (d.report .plain) line lead indent ∧
      lead + (d.position.column - 1) = indent + 1 + (digits - 3) := by
  intro digits lead indent
  obtain ⟨before, after, hlines⟩ := exists_reportLines hline
  have hupper : '\n' ∉ (d.lead ++ line).toList := by
    rw [String.toList_append, List.mem_append, not_or]
    exact ⟨d.lineFeed_notMem_lead, hfeed⟩
  have hlower : '\n' ∉ (d.indent ++ "^").toList := by
    rw [String.toList_append, List.mem_append, not_or]
    exact ⟨d.notMem_indent (by decide) (by decide), by decide⟩
  obtain ⟨hnumbered, hcaret⟩ := Text.hasLine_unlines before after hupper hlower
  rw [← hlines, ← report_plain] at hnumbered hcaret
  constructor
  · exact ⟨_, d.lead, d.indent, hnumbered, hcaret, d.length_lead, d.length_indent,
      d.notMem_indent (by decide) (by decide)⟩
  · dsimp only [lead, indent]
    omega

/-- A report on line 1204, whose number has four digits: the caret is two places off. -/
theorem caret_left_of_column_far_down :
    let line := "print 1 / x;"
    let d : Diagnostic := { Diagnostic.of .divisionByZero ⟨1204, 9⟩ with sourceLine := some line }
    d.sourceLine = some line ∧ '\n' ∉ line.toList ∧ ShowsCaret (d.report .plain) line 7 13 ∧
      7 + (d.position.column - 1) = 13 + 1 + 1 := by
  intro line d
  have hfeed : '\n' ∉ line.toList := by decide
  have hdigits : (Nat.toDigits 10 d.position.line).length = 4 := by decide +kernel
  have hshown := caret_left_of_column (d := d) rfl hfeed
  dsimp only at hshown
  rw [hdigits] at hshown
  exact ⟨rfl, hfeed, hshown⟩

/-- The caret does not stand below the column: in the report on `print ;`, where the operand is
missing at column 7, it stands below column 6. -/
theorem not_caret_below_column :
    let source := "print ;"
    let fault := unexpected .operand ⟨.semicolon, ";", ⟨1, 7⟩⟩
    let d := fault.inSource none source
    (parseText source).diagnostics = [fault] ∧ d.sourceLine = some source ∧
      '\t' ∉ source.toList ∧ '\n' ∉ source.toList ∧ 1 ≤ d.position.line ∧
      1 ≤ d.position.column ∧ d.position.column ≤ source.length ∧
      ¬ ∃ lead, ShowsCaret (d.report .plain) source lead (lead + (d.position.column - 1)) := by
  intro source fault d
  refine ⟨by decide +kernel, by decide +kernel, by decide, by decide, by decide, by decide,
    by decide, ?_⟩
  rintro ⟨lead, hshows⟩
  obtain ⟨i, hnumbered, hcaret⟩ := hshows.exists_outline
  have houtline : Text.outlineOf (d.report .plain) =
      [(73, false), (10, false), (5, false), (14, false), (13, true), (5, false)] := by
    decide +kernel
  rw [houtline] at hnumbered hcaret
  have hline : source.length = 7 := by decide
  have hcolumn : d.position.column = 7 := rfl
  rcases i with _ | _ | _ | _ | _ | i <;> simp at hnumbered hcaret
  omega

end Diagnostic

end MiniPL
