/-!
# Blank characters and words

A character is blank when it has the Unicode property `White_Space`.  A text is trimmed of the
blanks at its two ends, or cut into words, its maximal stretches without a blank.

Definitions: `isBlank`, `trim`, `words`.
-/

namespace MiniPL.Text

/-- The characters with the Unicode property `White_Space`. -/
def isBlank (c : Char) : Bool :=
  ('\t' ≤ c && c ≤ '\r') || c == ' ' || c == '\u0085' || c == '\u00a0' || c == '\u1680' ||
    ('\u2000' ≤ c && c ≤ '\u200a') || c == '\u2028' || c == '\u2029' || c == '\u202f' ||
    c == '\u205f' || c == '\u3000'

/-! ### Trimming -/

/-- The characters without the blanks at their two ends. -/
def trimChars (cs : List Char) : List Char :=
  ((cs.dropWhile isBlank).reverse.dropWhile isBlank).reverse

/-- A text without the blanks at its two ends. -/
def trim (text : String) : String :=
  String.ofList (trimChars text.toList)

/-! ### Words -/

/-- The stretches between the blanks of a text, the empty ones included; there is always one. -/
def fields : List Char → List (List Char)
  | [] => [[]]
  | c :: cs =>
    if isBlank c then [] :: fields cs
    else
      match fields cs with
      | [] => [[c]]
      | field :: rest => (c :: field) :: rest

/-- The maximal stretches of a text that hold no blank, in order. -/
def words (text : String) : List String :=
  ((fields text.toList).filter fun field => !field.isEmpty).map String.ofList

end MiniPL.Text
