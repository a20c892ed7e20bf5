/-!
# Edit distance

The least number of insertions, deletions and substitutions of single characters that turn one text
into another.  It is found row by row: the row of a text holds its distances to every suffix of a
fixed second text, longest suffix first.  `closest?` picks the candidate nearest to a target.

The rows can be filled from the left as well, for the beginnings of the two texts.  A row needs only
the one before it, so that two rows are enough: the one that is done takes the place of the one
before it, and that one is filled again.  The candidates, too, can be gone through from the left,
with the best one so far and its distance; the next one takes the place of the best if it is close,
and nearer than that.

Definitions: `firstRow`, `nextRow`, `editDistance`, `closest?`, and from the left `fillRow`,
`rollRows`, `rollingDistance`, `keepNearer`, `scanClosest?`.
-/

namespace MiniPL.Text

/-! ### Rows over the suffixes -/

/-- The row of the empty text: each suffix of `b` takes one insertion per character. -/
def firstRow : List Char → List Nat
  | [] => [0]
  | y :: b => (y :: b).length :: firstRow b

/-- The row of `x :: a` over the suffixes of `b`, from the row of `a`. -/
def nextRow (x : Char) : List Char → List Nat → List Nat
  | [], row => row.map (· + 1)
  | _ :: _, [] => []
  | y :: b, deleted :: row =>
    let rest := nextRow x b row
    let inserted := rest.headD 0
    let kept := row.headD 0 + if x = y then 0 else 1
    min (min (deleted + 1) (inserted + 1)) kept :: rest

/-- The row of `a` over the suffixes of `b`. -/
def editRow (a b : List Char) : List Nat :=
  a.foldr (fun x row => nextRow x b row) (firstRow b)

/-- The least number of single-character edits between two texts. -/
def editDistance (a b : String) : Nat :=
  (editRow a.toList b.toList).headD 0

/-! ### Two rows in turn -/

/-- Fills the entries behind entry `j` of the row of `x`, one for each of the characters; entries
not filled yet are left from an older row. -/
def fillRow (x : Char) (previous : Array Nat) : (b : List Char) → (j : Nat) → Array Nat → Array Nat
  | [], _, current => current
  | y :: b, j, current =>
    let deleted := previous.getD (j + 1) 0
    let inserted := current.getD j 0
    let kept := previous.getD j 0 + if x = y then 0 else 1
    let entry := min (min (deleted + 1) (inserted + 1)) kept
    fillRow x previous b (j + 1) (current.setIfInBounds (j + 1) entry)

/-- The last row behind those of the characters, of which `i` have gone before. -/
def rollRows (b : List Char) : (a : List Char) → (i : Nat) → Array Nat → Array Nat → Array Nat
  | [], _, previous, _ => previous
  | x :: a, i, previous, current =>
    rollRows b a (i + 1) (fillRow x previous b 0 (current.setIfInBounds 0 (i + 1))) previous

/-- The edit distance of two texts, found with two rows. -/
def rollingDistance (a b : String) : Nat :=
  if a.isEmpty then b.length
  else if b.isEmpty then a.length
  else
    let first := Array.range (b.length + 1)
    let spare := Array.replicate (b.length + 1) 0
    (rollRows b.toList a.toList 0 first spare).getD b.length 0

/-! ### The nearest candidate -/

/-- The greatest distance at which a candidate still counts as close. -/
def closeness : Nat := 3

/-- The first of the candidates nearest to a target, if one is close. -/
def closest? (target : String) : List String → Option String
  | [] => none
  | candidate :: rest =>
    match closest? target rest with
    | some best =>
      if editDistance target candidate ≤ editDistance target best then some candidate else some best
    | none => if editDistance target candidate ≤ closeness then some candidate else none

/-- The best candidate so far with its distance, once the next one has been looked at. -/
def keepNearer (target : String) (best : Option (String × Nat)) (candidate : String) :
    Option (String × Nat) :=
  let distance := rollingDistance target candidate
  if distance ≤ closeness ∧ ∀ kept ∈ best, distance < kept.2 then some (candidate, distance)
  else best

/-- The candidate that is the best one behind all candidates, if one is close. -/
def scanClosest? (target : String) (candidates : List String) : Option String :=
  (candidates.foldl (keepNearer target) none).map Prod.fst

end MiniPL.Text
