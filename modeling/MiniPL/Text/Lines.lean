/-!
# Lines

A line runs through its line feed; the last one may lack it.  `cutAfter` cuts any list after each
element of a kind, `dropLineEnd` takes the line end off one line, and `lines` does both for a text.
-/

namespace MiniPL.Text

variable {α : Type}

/-- The pieces of a list, cut after every element that satisfies `p`; the last piece may lack
one. -/
def cutAfter (p : α → Bool) : List α → List (List α)
  | [] => []
  | x :: xs =>
    if p x then [x] :: cutAfter p xs
    else
      match cutAfter p xs with
      | [] => [[x]]
      | piece :: pieces => (x :: piece) :: pieces

/-- Nothing is lost by cutting. -/
@[simp] theorem flatten_cutAfter (p : α → Bool) (xs : List α) : (cutAfter p xs).flatten = xs := by
  induction xs with
  | nil => rfl
  | cons x xs ih =>
    by_cases h : p x
    · simp [cutAfter, h, ih]
    · rw [cutAfter, if_neg h]
      cases hc : cutAfter p xs with
      | nil => simpa [hc] using ih
      | cons piece pieces => simpa [hc] using ih

/-- A line without its line feed, and without one carriage return just before that line feed. -/
def dropLineEnd (line : List Char) : List Char :=
  if line.getLast? = some '\n' then
    if line.dropLast.getLast? = some '\r' then line.dropLast.dropLast else line.dropLast
  else line

/-- The lines of a text, without their line ends. -/
def lines (text : String) : List String :=
  (cutAfter (· == '\n') text.toList).map fun line => String.ofList (dropLineEnd line)

end MiniPL.Text
