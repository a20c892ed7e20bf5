import MiniPL.Diagnostic
import MiniPL.Text.Styled

/-!
# Reports

A report shows a diagnostic to the reader: kind and message, the place, the source line with a caret
under the column, then help, suggestion and note.

Definition: `Diagnostic.report`.
-/

namespace MiniPL

open Text (Palette Style Colour)

namespace Diagnostic

/-- A number written at least three characters wide, aligned to the right. -/
def lineNumber (n : Nat) : String :=
  let digits := Nat.toDigits 10 n
  String.ofList (List.replicate (3 - digits.length) ' ' ++ digits)

/-- The bar that sets off the source. -/
def bar (palette : Palette) : String :=
  palette.tint .brightBlue "|"

/-- The style of kinds and carets. -/
def alert : Style := { bold := true, colour := some .red }

/-- The lines that show the source line and the caret. -/
def excerpt (palette : Palette) (position : Position) (line : String) : List String :=
  [ "   " ++ bar palette,
    palette.tint .brightBlue (lineNumber position.line) ++ " " ++ bar palette ++ " " ++ line,
    "   " ++ bar palette ++ " " ++ String.ofList (List.replicate (position.column - 1) ' ') ++
      palette.paint alert "^",
    "   " ++ bar palette ]

/-- A line below the excerpt. -/
def remark (palette : Palette) (colour : Colour) (text : String) : String :=
  "   " ++ palette.tint colour "=" ++ " " ++ palette.tint colour text

/-- The lines of a report. -/
def reportLines (palette : Palette) (diagnostic : Diagnostic) : List String :=
  [ palette.paint alert diagnostic.kind.text ++ ": " ++
      palette.paint { bold := true } diagnostic.message,
    palette.tint .brightBlue ("  --> " ++ diagnostic.place) ] ++
  (match diagnostic.sourceLine with
    | some line => excerpt palette diagnostic.position line
    | none => []) ++
  (diagnostic.help.map fun help => remark palette .brightYellow ("help: " ++ help)).toList ++
  (diagnostic.suggestion.map fun name =>
    remark palette .brightGreen ("Did you mean '" ++ name ++ "'?")).toList ++
  (diagnostic.note.map fun note => remark palette .brightCyan ("note: " ++ note)).toList

/-- The text of a report, a line feed after each line. -/
def report (palette : Palette) (diagnostic : Diagnostic) : String :=
  String.join ((diagnostic.reportLines palette).map (· ++ "\n"))

end Diagnostic

end MiniPL
