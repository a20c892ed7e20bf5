import Mathlib.Data.List.Basic
import MiniPL.Proofs.Edits
import MiniPL.Store

/-!
# The suggested name

The fault of a mention of a name that is not bound suggests a bound name, if one is close.  It is
the first of the nearest ones in the order of the names (`Text.IsFirstNearest`), whether the
candidates are gone through from the right, as in `Text.closest?`, or from the left with a running
best (`Text.scanClosest?_eq`).  Names that are collected in any order and sorted are the names of
the store (`Store.mergeSort_eq_names`), so that it does not matter in which order they were bound.

Main statement: `Store.suggestion_of_lookup`.
-/

namespace MiniPL

namespace Text

/-! ### The first of the nearest candidates -/

/-- `best` is the first of the candidates that are nearest to the target, and it is close. -/
structure IsFirstNearest (target : String) (candidates : List String) (best : String) : Prop where
  close : editDistance target best ≤ closeness
  split : ∃ front back, candidates = front ++ best :: back ∧
    (∀ other ∈ front, editDistance target best < editDistance target other) ∧
    ∀ other ∈ back, editDistance target best ≤ editDistance target other

section
variable {target best candidate : String} {candidates : List String}

theorem IsFirstNearest.mem (h : IsFirstNearest target candidates best) : best ∈ candidates := by
  obtain ⟨front, back, rfl, -⟩ := h.split
  exact List.mem_append_right _ List.mem_cons_self

theorem IsFirstNearest.le (h : IsFirstNearest target candidates best) :
    ∀ other ∈ candidates, editDistance target best ≤ editDistance target other := by
  obtain ⟨front, back, rfl, hfront, hback⟩ := h.split
  rw [List.forall_mem_append, List.forall_mem_cons]
  exact ⟨fun other hmem => Nat.le_of_lt (hfront other hmem), Nat.le_refl _, hback⟩

/-- In a sorted list, the first of the nearest is the smallest of them. -/
theorem IsFirstNearest.le_of_sorted (h : IsFirstNearest target candidates best)
    (hsorted : candidates.Pairwise (· < ·)) :
    ∀ other ∈ candidates, editDistance target other = editDistance target best → best ≤ other := by
  obtain ⟨front, back, rfl, hfront, -⟩ := h.split
  rw [List.forall_mem_append, List.forall_mem_cons]
  refine ⟨fun other hmem heq => ?_, fun _ => Std.le_refl best, fun other hmem _ => ?_⟩
  · exact absurd heq (Nat.ne_of_gt (hfront other hmem))
  · have hbehind := (List.pairwise_append.1 hsorted).2.1
    exact Std.le_of_lt (List.rel_of_pairwise_cons hbehind hmem)

theorem closest?_eq_none_iff :
    closest? target candidates = none ↔
      ∀ other ∈ candidates, closeness < editDistance target other := by
  induction candidates with
  | nil => exact iff_of_true rfl (List.forall_mem_nil _)
  | cons candidate rest ih =>
    rw [closest?, List.forall_mem_cons, ← ih]
    cases hrest : closest? target rest with
    | none =>
      by_cases hclose : editDistance target candidate ≤ closeness
      · simp [hclose]
      · simp [hclose, Nat.lt_of_not_le hclose]
    | some best =>
      dsimp only
      split <;> simp

theorem isFirstNearest_of_closest? (h : closest? target candidates = some best) :
    IsFirstNearest target candidates best := by
  induction candidates generalizing best with
  | nil => cases h
  | cons candidate rest ih =>
    rw [closest?] at h
    cases hrest : closest? target rest with
    | none =>
      rw [hrest] at h
      dsimp only at h
      split at h
      · rename_i hclose
        obtain rfl := Option.some.inj h
        have hfar := closest?_eq_none_iff.1 hrest
        refine ⟨hclose, [], rest, rfl, List.forall_mem_nil _, fun other hmem => ?_⟩
        exact Nat.le_of_lt (Nat.lt_of_le_of_lt hclose (hfar other hmem))
      · cases h
    | some kept =>
      rw [hrest] at h
      have hkept := ih hrest
      dsimp only at h
      split at h
      · rename_i hle
        obtain rfl := Option.some.inj h
        refine ⟨Nat.le_trans hle hkept.close, [], rest, rfl, List.forall_mem_nil _, ?_⟩
        exact fun other hmem => Nat.le_trans hle (hkept.le other hmem)
      · rename_i hlt
        obtain rfl := Option.some.inj h
        obtain ⟨front, back, rfl, hfront, hback⟩ := hkept.split
        refine ⟨hkept.close, candidate :: front, back, rfl, ?_, hback⟩
        exact List.forall_mem_cons.2 ⟨Nat.lt_of_not_le hlt, hfront⟩

end

/-! ### A running best -/

section
variable (target : String)

/-- Of two candidates, each of which may be missing, the nearer one, and the first of equals. -/
def nearer : Option String → Option String → Option String
  | none, later => later
  | some first, none => some first
  | some first, some later =>
    if editDistance target first ≤ editDistance target later then some first else some later

/-- A candidate if it is close. -/
def ifClose (candidate : String) : Option String :=
  if editDistance target candidate ≤ closeness then some candidate else none

/-- A candidate with its distance. -/
def scored (candidate : String) : String × Nat :=
  (candidate, editDistance target candidate)

theorem nearer_none (a : Option String) : nearer target a none = a := by
  cases a <;> rfl

theorem nearer_assoc (a b c : Option String) :
    nearer target (nearer target a b) c = nearer target a (nearer target b c) := by
  cases a <;> cases b <;> cases c <;> grind [nearer]

theorem closest?_cons (candidate : String) (rest : List String) :
    closest? target (candidate :: rest) =
      nearer target (ifClose target candidate) (closest? target rest) := by
  rw [closest?, ifClose]
  cases hrest : closest? target rest with
  | none => exact (nearer_none target _).symm
  | some best =>
    have hbest := (isFirstNearest_of_closest? hrest).close
    by_cases hclose : editDistance target candidate ≤ closeness
    · rw [if_pos hclose]
      rfl
    · rw [if_neg hclose, nearer]
      exact if_neg fun hle => hclose (Nat.le_trans hle hbest)

theorem keepNearer_scored (best : Option String) (candidate : String) :
    keepNearer target (best.map (scored target)) candidate =
      (nearer target best (ifClose target candidate)).map (scored target) := by
  have hdistance : rollingDistance target candidate = editDistance target candidate :=
    rollingDistance_eq target candidate
  unfold keepNearer ifClose
  rw [hdistance]
  dsimp only
  by_cases hclose : editDistance target candidate ≤ closeness
  · cases best with
    | none => simp [hclose, nearer, scored]
    | some kept =>
      by_cases hle : editDistance target kept ≤ editDistance target candidate
      · simp [hclose, nearer, scored, hle, Nat.not_lt.2 hle]
      · simp [hclose, nearer, scored, hle, Nat.lt_of_not_le hle]
  · rw [if_neg fun h => hclose h.1, if_neg hclose, nearer_none]

theorem foldl_keepNearer (candidates : List String) (best : Option String) :
    candidates.foldl (keepNearer target) (best.map (scored target)) =
      (nearer target best (closest? target candidates)).map (scored target) := by
  induction candidates generalizing best with
  | nil => rw [List.foldl_nil, closest?, nearer_none]
  | cons candidate rest ih =>
    rw [List.foldl_cons, keepNearer_scored, ih, closest?_cons, nearer_assoc]

/-- Going through the candidates from the left with a running best finds the same one. -/
theorem scanClosest?_eq (candidates : List String) :
    scanClosest? target candidates = closest? target candidates := by
  have hfold := foldl_keepNearer target candidates none
  rw [Option.map_none] at hfold
  rw [scanClosest?, hfold, nearer, Option.map_map]
  exact congrFun Option.map_id (closest? target candidates)

end

end Text

namespace Store

/-! ### The bound names -/

section
variable {store : Store} {name : String}

theorem mem_names_iff : name ∈ store.names ↔ store.contains name = true := by
  rw [contains, get?, List.lookup_isSome_iff, names, List.mem_map]
  simp only [beq_iff_eq]
  exact exists_congr fun binding => and_congr_right fun _ => eq_comm

theorem pairwise_names (store : Store) : store.names.Pairwise (· < ·) :=
  List.pairwise_map.2 store.sorted

/-- Names that are collected in any order, each once, and sorted. -/
theorem mergeSort_eq_names {keys : List String} (hnodup : keys.Nodup)
    (hkeys : ∀ key, key ∈ keys ↔ store.contains key = true) :
    keys.mergeSort (· ≤ ·) = store.names := by
  have hperm : keys.Perm store.names := by
    have hnames : store.names.Nodup := store.pairwise_names.imp Std.ne_of_lt
    rw [List.perm_ext_iff_of_nodup hnodup hnames]
    exact fun key => (hkeys key).trans mem_names_iff.symm
  have hsorted : (keys.mergeSort (· ≤ ·)).Pairwise (· ≤ ·) := by
    refine (List.pairwise_mergeSort (fun a b c hab hbc => ?_) (fun a b => ?_) keys).imp
      of_decide_eq_true
    · exact decide_eq_true (String.le_trans (of_decide_eq_true hab) (of_decide_eq_true hbc))
    · simpa using String.le_total a b
  exact List.Perm.eq_of_pairwise (fun a b _ _ => String.le_antisymm) hsorted
    (store.pairwise_names.imp Std.le_of_lt) ((List.mergeSort_perm keys _).trans hperm)

end

/-! ### Stores in use -/

/-- What is done to a store. -/
inductive Update
  /-- Binds a name, whether it was bound or not. -/
  | declare (name : String) (value : Value)
  /-- Gives another value to a name, if it is bound. -/
  | assign (name : String) (value : Value)
  /-- Forgets all names. -/
  | clear
  deriving DecidableEq, Repr

/-- The store behind an update. -/
def update (store : Store) : Update → Store
  | .declare name value => store.declare name value
  | .assign name value => (store.assign? name value).getD store
  | .clear => empty

/-- The store behind updates of the store without variables. -/
def ofUpdates (updates : List Update) : Store :=
  updates.foldl update empty

/-! ### Suggestions -/

/-- `best` is what is to be suggested for a name that is not bound: a close name that is bound,
such that no bound name is closer, and none that is as close comes before it. -/
structure Suggests (store : Store) (name best : String) : Prop where
  contains : store.contains best = true
  ne : best ≠ name
  close : Text.editDistance name best ≤ 3
  nearest : ∀ other, store.contains other = true →
    Text.editDistance name best ≤ Text.editDistance name other
  first : ∀ other, store.contains other = true →
    Text.editDistance name other = Text.editDistance name best → best ≤ other

theorem suggests_of_closest? {store : Store} {name best : String}
    (hname : store.contains name = false) (h : Text.closest? name store.names = some best) :
    store.Suggests name best := by
  have hnearest := Text.isFirstNearest_of_closest? h
  have hbest : store.contains best = true := mem_names_iff.1 hnearest.mem
  refine ⟨hbest, ?_, hnearest.close, fun other hother => ?_, fun other hother => ?_⟩
  · rintro rfl
    rw [hname] at hbest
    cases hbest
  · exact hnearest.le other (mem_names_iff.2 hother)
  · exact hnearest.le_of_sorted store.pairwise_names other (mem_names_iff.2 hother)

theorem lookup_of_contains_eq_false {store : Store} {name : String}
    (h : store.contains name = false) (position : Position) :
    store.lookup name position = .error (store.undefined name position) := by
  rw [contains, Option.isSome_eq_false_iff, Option.isNone_iff_eq_none] at h
  rw [lookup, h]

theorem isSome_closest?_iff {store : Store} {name : String} :
    (Text.closest? name store.names).isSome = true ↔
      ∃ other, store.contains other = true ∧ Text.editDistance name other ≤ 3 := by
  rw [← not_iff_not, Bool.not_eq_true, Option.isSome_eq_false_iff, Option.isNone_iff_eq_none,
    Text.closest?_eq_none_iff]
  simp [mem_names_iff, Text.closeness]

/-- Stores that bind the same names have the same names in the same order. -/
theorem names_congr {store store' : Store}
    (h : ∀ key, store'.contains key = store.contains key) : store'.names = store.names := by
  have hnodup : store.names.Nodup := store.pairwise_names.imp Std.ne_of_lt
  have hkeys : ∀ key, key ∈ store.names ↔ store'.contains key = true :=
    fun key => mem_names_iff.trans (iff_of_eq (congrArg (· = true) (h key).symm))
  rw [← mergeSort_eq_names hnodup hkeys, mergeSort_eq_names hnodup fun key => mem_names_iff]

/-- The fault of a name that is not bound suggests a name if and only if a bound name is at most
three edits away; then the suggestion is the smallest of the nearest ones.  It hangs on the names
that are bound alone: it is found from them, collected in any order and sorted, and is the same
behind all updates that leave the same names bound. -/
theorem suggestion_of_lookup (updates : List Update) (name : String) (position : Position)
    (h : (ofUpdates updates).contains name = false) :
    ∃ fault, (ofUpdates updates).lookup name position = .error fault ∧
      fault.kind = .undefinedVariable ∧
      (fault.suggestion.isSome = true ↔ ∃ other, (ofUpdates updates).contains other = true ∧
        Text.editDistance name other ≤ 3) ∧
      (∀ best, fault.suggestion = some best → (ofUpdates updates).Suggests name best) ∧
      (∀ keys : List String, keys.Nodup →
        (∀ key, key ∈ keys ↔ (ofUpdates updates).contains key = true) →
        fault.suggestion = Text.scanClosest? name (keys.mergeSort (· ≤ ·))) ∧
      ∀ updates', (∀ key, (ofUpdates updates').contains key = (ofUpdates updates).contains key) →
        ∃ fault', (ofUpdates updates').lookup name position = .error fault' ∧
          fault'.suggestion = fault.suggestion := by
  refine ⟨_, lookup_of_contains_eq_false h position, rfl, isSome_closest?_iff, ?_, ?_, ?_⟩
  · exact fun best => suggests_of_closest? h
  · intro keys hnodup hkeys
    rw [mergeSort_eq_names hnodup hkeys, Text.scanClosest?_eq]
    rfl
  · intro updates' hsame
    refine ⟨_, lookup_of_contains_eq_false ((hsame name).trans h) position, ?_⟩
    exact congrArg (Text.closest? name) (names_congr hsame)

/-- Two bound names are as close, and the smaller one was bound later; one that is smaller still has
been forgotten. -/
theorem suggestion_of_lookup_tie :
    let updates : List Update :=
      [.declare "cot" (.int 0), .clear, .declare "court" (.int 1), .declare "total" (.bool true),
        .declare "count" (.string ""), .assign "cout" (.int 7)]
    let store := ofUpdates updates
    store.contains "cout" = false ∧ ∃ fault, store.lookup "cout" ⟨3, 7⟩ = .error fault ∧
      fault.kind = .undefinedVariable ∧
      (fault.suggestion.isSome = true ↔ ∃ other, store.contains other = true ∧
        Text.editDistance "cout" other ≤ 3) ∧
      (∀ best, fault.suggestion = some best → store.Suggests "cout" best) ∧
      (∀ keys : List String, keys.Nodup → (∀ key, key ∈ keys ↔ store.contains key = true) →
        fault.suggestion = Text.scanClosest? "cout" (keys.mergeSort (· ≤ ·))) ∧
      ∀ updates', (∀ key, (ofUpdates updates').contains key = store.contains key) →
        ∃ fault', (ofUpdates updates').lookup "cout" ⟨3, 7⟩ = .error fault' ∧
          fault'.suggestion = fault.suggestion := by
  intro updates store
  have hname : store.contains "cout" = false := by decide +kernel
  exact ⟨hname, suggestion_of_lookup updates "cout" ⟨3, 7⟩ hname⟩

example : Text.closest? "cout" ["count", "court", "total"] = some "count" := by decide +kernel

end Store

end MiniPL
