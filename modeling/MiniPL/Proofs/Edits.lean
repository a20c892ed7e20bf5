import Mathlib.Order.Bounds.Basic
import Mathlib.Order.MinMax
import MiniPL.Text.EditDistance

/-!
# The edit distance counts edits

An edit inserts, deletes or replaces one character anywhere in a text.  The entries of the rows obey
the equations of a recursion over both texts (`distance_cons_cons`).  Following the recursion gives
that many edits (`edits_distance`).  Conversely no edit brings a text nearer to any other text by
more than one (`Edit.near`), wherever it is made and in whatever order the edits come, so that fewer
do not suffice.

Two rows that are filled in turn from the left find the same number: each holds the distances from
one beginning of the first text to all beginnings of the second (`HoldsRow`), whatever is left in it
from the row before the last, and edits can be read from either end (`distance_reverse`).

Main statement: `isLeast_editDistance`.
-/

namespace MiniPL.Text

/-! ### Edits -/

/-- One insertion, deletion or substitution of a single character. -/
inductive Edit : List Char → List Char → Prop
  | insert (front back : List Char) (c : Char) : Edit (front ++ back) (front ++ c :: back)
  | delete (front back : List Char) (c : Char) : Edit (front ++ c :: back) (front ++ back)
  | substitute (front back : List Char) (c d : Char) :
    Edit (front ++ c :: back) (front ++ d :: back)

/-- The second text comes from the first by that many edits, one after another. -/
inductive Edits : Nat → List Char → List Char → Prop
  | nil (a : List Char) : Edits 0 a a
  | cons {n : Nat} {a b c : List Char} (h : Edit a b) (hs : Edits n b c) : Edits (n + 1) a c

theorem Edit.behind {a b : List Char} (h : Edit a b) (c : Char) : Edit (c :: a) (c :: b) := by
  cases h with
  | insert front back d => exact .insert (c :: front) back d
  | delete front back d => exact .delete (c :: front) back d
  | substitute front back d e => exact .substitute (c :: front) back d e

namespace Edits

variable {n : Nat} {a b c : List Char}

theorem behind (h : Edits n a b) (c : Char) : Edits n (c :: a) (c :: b) := by
  induction h with
  | nil a => exact .nil (c :: a)
  | cons h _ ih => exact .cons (h.behind c) ih

theorem concat (h : Edits n a b) (hlast : Edit b c) : Edits (n + 1) a c := by
  induction h with
  | nil a => exact .cons hlast (.nil c)
  | cons h _ ih => exact .cons h (ih hlast)

end Edits

/-! ### The recursion behind the rows -/

/-- The first entry of a row. -/
def distance (a b : List Char) : Nat :=
  (editRow a b).headD 0

section
variable (x y : Char) (a b : List Char)

theorem editRow_nil : editRow a [] = [a.length] := by
  induction a with
  | nil => rfl
  | cons x a ih =>
    show nextRow x [] (editRow a []) = _
    rw [ih]
    rfl

/-- Behind its first entry, a row is the row of the shorter text. -/
theorem editRow_cons : editRow a (y :: b) = distance a (y :: b) :: editRow a b := by
  induction a with
  | nil => rfl
  | cons x a ih =>
    show nextRow x (y :: b) (editRow a (y :: b)) =
      (nextRow x (y :: b) (editRow a (y :: b))).headD 0 :: nextRow x b (editRow a b)
    rw [ih]
    rfl

theorem distance_nil_left : distance [] b = b.length := by
  cases b <;> rfl

theorem distance_nil_right : distance a [] = a.length := by
  rw [distance, editRow_nil]
  rfl

theorem distance_cons_cons :
    distance (x :: a) (y :: b) =
      min (min (distance a (y :: b) + 1) (distance (x :: a) b + 1))
        (distance a b + if x = y then 0 else 1) := by
  show (nextRow x (y :: b) (editRow a (y :: b))).headD 0 = _
  rw [editRow_cons]
  rfl

/-! ### As many edits as the distance -/

theorem edits_distance : Edits (distance a b) a b := by
  induction a generalizing b with
  | nil =>
    rw [distance_nil_left]
    induction b with
    | nil => exact .nil []
    | cons y b ih => exact ih.concat (.insert [] b y)
  | cons x a iha =>
    induction b with
    | nil =>
      have hrest := iha []
      rw [distance_nil_right] at hrest ⊢
      exact .cons (.delete [] a x) hrest
    | cons y b ihb =>
      rw [distance_cons_cons]
      refine min_rec' (Edits · (x :: a) (y :: b)) (min_rec' (Edits · _ _) ?_ ?_) ?_
      · exact .cons (.delete [] a x) (iha (y :: b))
      · exact ihb.concat (.insert [] b y)
      · split
        · subst y
          exact (iha b).behind x
        · exact .cons (.substitute [] a x y) ((iha b).behind y)

/-! ### No fewer edits than the distance -/

/-- Every text is at most one farther from `a` than from `b`. -/
def Near (a b : List Char) : Prop :=
  ∀ c, distance a c ≤ distance b c + 1

theorem distance_le_of_insert : distance a (y :: b) ≤ distance a b + 1 := by
  cases a with
  | nil => rw [distance_nil_left, distance_nil_left, List.length_cons]
  | cons x a =>
    rw [distance_cons_cons]
    omega

theorem near_of_delete : Near (x :: a) a := by
  intro c
  cases c with
  | nil => rw [distance_nil_right, distance_nil_right, List.length_cons]
  | cons y c =>
    rw [distance_cons_cons]
    omega

theorem near_of_insert : Near a (x :: a) := by
  intro c
  induction c with
  | nil =>
    rw [distance_nil_right, distance_nil_right, List.length_cons]
    omega
  | cons y c ih =>
    have hle := distance_le_of_insert y a c
    rw [distance_cons_cons]
    omega

theorem near_of_substitute : Near (x :: a) (y :: a) := by
  intro c
  induction c with
  | nil =>
    rw [distance_nil_right, distance_nil_right]
    exact Nat.le_succ _
  | cons z c ih =>
    have hcost : (if x = z then 0 else 1) ≤ 1 := by split <;> omega
    rw [distance_cons_cons, distance_cons_cons]
    omega

/-- What both texts start with makes no difference. -/
theorem Near.behind {a b : List Char} (h : Near a b) (x : Char) : Near (x :: a) (x :: b) := by
  intro c
  induction c with
  | nil =>
    have hnil := h []
    rw [distance_nil_right, distance_nil_right] at hnil ⊢
    exact Nat.succ_le_succ hnil
  | cons y c ih =>
    have hdelete := h (y :: c)
    have hkeep := h c
    rw [distance_cons_cons, distance_cons_cons]
    omega

theorem Near.append {a b : List Char} (h : Near a b) (front : List Char) :
    Near (front ++ a) (front ++ b) := by
  induction front with
  | nil => exact h
  | cons x front ih => exact ih.behind x

/-- An edit changes no distance by more than one. -/
theorem Edit.near {a b : List Char} (h : Edit a b) : Near a b := by
  cases h with
  | insert front back c => exact (near_of_insert c back).append front
  | delete front back c => exact (near_of_delete c back).append front
  | substitute front back c d => exact (near_of_substitute c d back).append front

theorem distance_self : distance a a = 0 := by
  induction a with
  | nil => rfl
  | cons x a ih =>
    rw [distance_cons_cons, ih, if_pos rfl]
    exact Nat.min_zero _

theorem distance_le_of_edits {n : Nat} {a b : List Char} (h : Edits n a b) : distance a b ≤ n := by
  induction h with
  | nil a => exact Nat.le_of_eq (distance_self a)
  | @cons n a b c h _ ih => exact (h.near c).trans (Nat.succ_le_succ ih)

end

/-! ### Two rows -/

theorem reverse_append_cons (front back : List Char) (c : Char) :
    (front ++ c :: back).reverse = back.reverse ++ c :: front.reverse := by
  rw [List.reverse_append, List.reverse_cons, List.append_assoc, List.singleton_append]

theorem Edit.reverse {a b : List Char} (h : Edit a b) : Edit a.reverse b.reverse := by
  cases h with
  | insert front back c =>
    rw [reverse_append_cons, List.reverse_append]
    exact .insert back.reverse front.reverse c
  | delete front back c =>
    rw [reverse_append_cons, List.reverse_append]
    exact .delete back.reverse front.reverse c
  | substitute front back c d =>
    rw [reverse_append_cons, reverse_append_cons]
    exact .substitute back.reverse front.reverse c d

theorem Edits.reverse {n : Nat} {a b : List Char} (h : Edits n a b) :
    Edits n a.reverse b.reverse := by
  induction h with
  | nil a => exact .nil a.reverse
  | cons h _ ih => exact .cons h.reverse ih

/-- It does not matter from which end the texts are read. -/
theorem distance_reverse (a b : List Char) : distance a.reverse b.reverse = distance a b := by
  apply Nat.le_antisymm
  · exact distance_le_of_edits (edits_distance a b).reverse
  · have hedits := (edits_distance a.reverse b.reverse).reverse
    rw [List.reverse_reverse, List.reverse_reverse] at hedits
    exact distance_le_of_edits hedits

section
variable {row previous current : Array Nat}

theorem getD_setIfInBounds_self {j n : Nat} (h : j < row.size) :
    (row.setIfInBounds j n).getD j 0 = n := by
  rw [Array.getD_eq_getD_getElem?, Array.getElem?_setIfInBounds_self, if_pos h]
  rfl

theorem getD_setIfInBounds_of_ne {j k n : Nat} (h : j ≠ k) :
    (row.setIfInBounds j n).getD k 0 = row.getD k 0 := by
  rw [Array.getD_eq_getD_getElem?, Array.getD_eq_getD_getElem?, Array.getElem?_setIfInBounds_ne h]

/-- The row holds the distances between a text, given from its end, and all beginnings of `b`; what
stands behind them does not count. -/
def HoldsRow (row : Array Nat) (reversed b : List Char) : Prop :=
  ∀ front, front <+: b → row.getD front.length 0 = distance reversed front.reverse

variable {reversed taken b : List Char} {x y : Char}

theorem holdsRow_range : HoldsRow (Array.range (b.length + 1)) [] b := by
  intro front hfront
  have hlength := hfront.length_le
  rw [Array.getD_eq_getD_getElem?, Array.getElem?_range, if_pos (by omega), distance_nil_left,
    List.length_reverse]
  rfl

theorem holdsRow_first (h : 0 < row.size) :
    HoldsRow (row.setIfInBounds 0 (reversed.length + 1)) (x :: reversed) [] := by
  intro front hfront
  obtain rfl := List.prefix_nil.1 hfront
  rw [List.length_nil, getD_setIfInBounds_self h, List.reverse_nil, distance_nil_right,
    List.length_cons]

/-- One more entry, if it is right, makes the row hold one more distance. -/
theorem HoldsRow.concat (h : HoldsRow row reversed taken) (hsize : taken.length + 1 < row.size)
    {entry : Nat} (hentry : entry = distance reversed (y :: taken.reverse)) :
    HoldsRow (row.setIfInBounds (taken.length + 1) entry) reversed (taken ++ [y]) := by
  intro front hfront
  rcases List.prefix_concat_iff.1 hfront with rfl | hfront
  · rw [List.length_append, List.length_singleton, getD_setIfInBounds_self hsize, hentry,
      List.reverse_append, List.reverse_singleton, List.singleton_append]
  · have hlength := hfront.length_le
    rw [getD_setIfInBounds_of_ne (by omega)]
    exact h front hfront

theorem size_fillRow (j : Nat) : (fillRow x previous b j current).size = current.size := by
  induction b generalizing j current with
  | nil => rfl
  | cons y b ih => rw [fillRow, ih, Array.size_setIfInBounds]

/-- Filling goes on from what is filled already. -/
theorem HoldsRow.filled (hprevious : HoldsRow previous reversed (taken ++ b))
    (hcurrent : HoldsRow current (x :: reversed) taken)
    (hsize : taken.length + b.length < current.size) :
    HoldsRow (fillRow x previous b taken.length current) (x :: reversed) (taken ++ b) := by
  -- Of the second text, `taken` has its entries already; those behind them are old ones.
  induction b generalizing taken current with
  | nil => rwa [fillRow, List.append_nil]
  | cons y b ih =>
    rw [List.length_cons] at hsize
    rw [List.append_cons] at hprevious ⊢
    have hdeleted := hprevious (taken ++ [y]) (List.prefix_append _ _)
    have hkept := hprevious taken ((List.prefix_append _ _).trans (List.prefix_append _ _))
    have hinserted := hcurrent taken (List.prefix_refl taken)
    have hlength : (taken ++ [y]).length = taken.length + 1 := List.length_append
    rw [hlength, List.reverse_append, List.reverse_singleton, List.singleton_append] at hdeleted
    have hnext := hcurrent.concat (by omega) (distance_cons_cons x y reversed taken.reverse).symm
    rw [fillRow, hdeleted, hkept, hinserted, ← hlength]
    rw [← hlength] at hnext
    refine ih hprevious hnext ?_
    rw [hlength, Array.size_setIfInBounds]
    omega

/-- The last row holds the distances of the whole text. -/
theorem HoldsRow.rolled (h : HoldsRow previous reversed b)
    (hprevious : previous.size = b.length + 1) (hcurrent : current.size = b.length + 1)
    (a : List Char) :
    HoldsRow (rollRows b a reversed.length previous current) (a.reverse ++ reversed) b := by
  induction a generalizing reversed previous current with
  | nil => exact h
  | cons x a ih =>
    have hfirst : HoldsRow (current.setIfInBounds 0 (reversed.length + 1)) (x :: reversed) [] :=
      holdsRow_first (by omega)
    have hroom : ([] : List Char).length + b.length <
        (current.setIfInBounds 0 (reversed.length + 1)).size := by
      rw [Array.size_setIfInBounds, List.length_nil]
      omega
    have hsize : (fillRow x previous b 0
        (current.setIfInBounds 0 (reversed.length + 1))).size = b.length + 1 := by
      rw [size_fillRow, Array.size_setIfInBounds, hcurrent]
    rw [List.reverse_cons, List.append_assoc]
    exact ih (h.filled hfirst hroom) hsize hprevious

end

theorem rollingDistance_eq (a b : String) : rollingDistance a b = distance a.toList b.toList := by
  unfold rollingDistance
  split
  · rename_i ha
    rw [String.isEmpty_iff.1 ha, String.toList_empty, distance_nil_left, String.length_toList]
  split
  · rename_i hb
    rw [String.isEmpty_iff.1 hb, String.toList_empty, distance_nil_right, String.length_toList]
  · have hspare : (Array.replicate (b.toList.length + 1) 0).size = b.toList.length + 1 :=
      Array.size_replicate
    have hrows := holdsRow_range.rolled Array.size_range hspare a.toList
    have hlast := hrows b.toList (List.prefix_refl _)
    rw [List.append_nil, distance_reverse, String.length_toList] at hlast
    exact hlast

/-- The edit distance of two texts is the least number of insertions, deletions and substitutions
of single characters that make the second out of the first, and two rows are enough to find it. -/
theorem isLeast_editDistance (a b : String) :
    IsLeast {n | Edits n a.toList b.toList} (editDistance a b) ∧
      rollingDistance a b = editDistance a b :=
  ⟨⟨edits_distance a.toList b.toList, fun _ h => distance_le_of_edits h⟩, rollingDistance_eq a b⟩

example : editDistance "kitten" "sitting" = 3 := by decide +kernel

end MiniPL.Text
