import MiniPL.Diagnostic
import MiniPL.Text.Blank
import MiniPL.Text.Lines

/-!
# Input

Input is read word by word, and line by line behind that: when no word is left over, whole lines are
read until one holds a word.  A line that is not UTF-8 is a fault once, and is passed over by it.

Definitions: `Input`, `Input.ofText`, `Input.ofBytes`, `Input.nextWord`.
-/

namespace MiniPL

/-- The words left over from the lines read so far, and the lines still to read; a line is missing
where it is not UTF-8. -/
structure Input where
  pending : List String
  lines : List (Option String)
  deriving DecidableEq, Repr

namespace Input

/-- The input without anything to read. -/
def empty : Input := ⟨[], []⟩

/-- The input that holds a text. -/
def ofText (text : String) : Input :=
  ⟨[], (Text.cutAfter (· == '\n') text.toList).map fun line => some (String.ofList line)⟩

/-- The lines of a run of bytes, each with its line feed. -/
def linesOfBytes (bytes : List UInt8) : List (Option String) :=
  (Text.cutAfter (· == 10) bytes).map fun line => String.fromUTF8? ⟨line.toArray⟩

/-- The input that holds a run of bytes. -/
def ofBytes (bytes : List UInt8) : Input :=
  ⟨[], linesOfBytes bytes⟩

/-- The next word of the given lines. -/
def nextWordOfLines : List (Option String) → Except Cause String × Input
  | [] => (.error .endOfInput, empty)
  | none :: lines => (.error .notUtf8, ⟨[], lines⟩)
  | some line :: lines =>
    match Text.words line with
    | [] => nextWordOfLines lines
    | word :: words => (.ok word, ⟨words, lines⟩)

/-- The next word, and the input behind it. -/
def nextWord (input : Input) : Except Cause String × Input :=
  match input.pending with
  | [] => nextWordOfLines input.lines
  | word :: words => (.ok word, ⟨words, input.lines⟩)

end Input

end MiniPL
