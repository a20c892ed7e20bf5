import Mathlib.Data.Int.Range
import MiniPL.Proofs.Pieces

/-!
# Loops are their unrolling

A loop evaluates its two bounds once, in front of its first round, and then does what a list of
statements without that loop does: its counter is set to the first number, and for each number from
the first through the last the counter is set to it and the body follows.  What the body does to the
counter or to the variables of the bounds has no bearing on the rounds.

`numbersThrough` are the numbers of the rounds, which end in time also where the last one is the
greatest of all, and `unrolled` is the list of statements.  Main statement:
`Statement.exec_loop_eq_unrolled`.
-/

namespace MiniPL

/-! ### The numbers of the rounds -/

/-- The numbers from the first through the last, one after another; none if the first is greater. -/
def numbersThrough (first last : Int32) : List Int32 :=
  (Int.range first.toInt (last.toInt + 1)).map Int32.ofInt

/-- A number between two numbers is one of 32 bits. -/
theorem toInt_ofInt_of_mem_range {first last : Int32} {n : Int}
    (h : n ∈ Int.range first.toInt (last.toInt + 1)) : (Int32.ofInt n).toInt = n := by
  have hfirst := first.le_toInt
  have hlast := last.toInt_lt
  obtain ⟨hle, hlt⟩ := Int.mem_range_iff.1 h
  exact Int32.toInt_ofInt_of_le (by omega) (by omega)

theorem mem_numbersThrough_iff {first last i : Int32} :
    i ∈ numbersThrough first last ↔ first ≤ i ∧ i ≤ last := by
  rw [Int32.le_iff_toInt_le, Int32.le_iff_toInt_le, numbersThrough, List.mem_map]
  constructor
  · rintro ⟨n, hn, rfl⟩
    rw [toInt_ofInt_of_mem_range hn]
    obtain ⟨hle, hlt⟩ := Int.mem_range_iff.1 hn
    exact ⟨hle, Int.lt_add_one_iff.1 hlt⟩
  · rintro ⟨hle, hle'⟩
    exact ⟨i.toInt, Int.mem_range_iff.2 ⟨hle, Int.lt_add_one_iff.2 hle'⟩, Int32.ofInt_toInt i⟩

/-- The numbers come in their order, each of them once. -/
theorem pairwise_numbersThrough (first last : Int32) :
    (numbersThrough first last).Pairwise (· < ·) := by
  have hrange : (Int.range first.toInt (last.toInt + 1)).Pairwise (· < ·) := by
    refine List.pairwise_map.2 (List.pairwise_lt_range.imp fun hlt => ?_)
    omega
  refine List.pairwise_map.2 (hrange.imp_of_mem fun hm hn hlt => ?_)
  rw [Int32.lt_iff_toInt_lt, toInt_ofInt_of_mem_range hm, toInt_ofInt_of_mem_range hn]
  exact hlt

example : numbersThrough 2147483646 2147483647 = [2147483646, 2147483647] := by decide

theorem numbersThrough_of_lt {first last : Int32} (h : last < first) :
    numbersThrough first last = [] := by
  refine List.eq_nil_iff_forall_not_mem.2 fun i hi => ?_
  obtain ⟨hle, hle'⟩ := mem_numbersThrough_iff.1 hi
  exact absurd (Int32.le_trans hle hle') (Int32.not_le.2 h)

/-! ### Rounds as statements -/

/-- The statements that a loop amounts to, once its bounds are known. -/
def unrolled (counter : Identifier) (body : Block) (first last : Int32) : Block :=
  .assignment counter (.int first) ::
    (numbersThrough first last).flatMap fun i => .assignment counter (.int i) :: body

/-- The numbers that rounds count through: each is one more than the one before it. -/
theorem numbersThrough_eq (first last : Int32) :
    numbersThrough first last =
      (List.range (roundCount first last)).map fun (k : Nat) => Int32.ofInt (first.toInt + k) := by
  have hcount : roundCount first last = (last.toInt + 1 - first.toInt).toNat := by
    unfold roundCount
    omega
  rw [numbersThrough, Int.range, List.map_map, hcount]
  rfl

/-- Setting a variable to a number is storing the number. -/
theorem exec_assignment_int (counter : Identifier) (i : Int32) :
    (Statement.assignment counter (.int i)).exec = Run.store counter (.int i) := by
  rw [Statement.exec]
  rfl

/-- Rounds are their statements in a row.  The number behind the last round is never used, and may
be out of range. -/
theorem rounds_eq_exec (counter : Identifier) (body : Block) (n : Nat) (i : Int32)
    (h : i.toInt + n ≤ 2 ^ 31) :
    Run.rounds (fun j => do
      Run.store counter (.int j)
      Block.exec body) n i =
    Block.exec (((List.range n).map fun (k : Nat) => Int32.ofInt (i.toInt + k)).flatMap fun j =>
      .assignment counter (.int j) :: body) := by
  induction n generalizing i with
  | zero => rfl
  | succ n ih =>
    have hfirst : Int32.ofInt (i.toInt + (0 : Nat)) = i := by
      rw [Int.natCast_zero, Int.add_zero, Int32.ofInt_toInt]
    -- If there is a next round, its number does not wrap around.
    have hnext (hn : 0 < n) : (i + 1).toInt = i.toInt + 1 := by
      have hle := i.le_toInt
      rw [Int32.toInt_add, Int32.toInt_one]
      exact Int.bmod_eq_of_le (by omega) (by omega)
    have hbound : (i + 1).toInt + n ≤ 2 ^ 31 := by
      rcases Nat.eq_zero_or_pos n with rfl | hn
      · have hlt := (i + 1).toInt_lt
        omega
      · rw [hnext hn]
        omega
    have hnumbers : ((List.range n).map fun (k : Nat) => Int32.ofInt ((i + 1).toInt + k)) =
        (List.range n).map fun (k : Nat) => Int32.ofInt (i.toInt + (k + 1 : Nat)) := by
      refine List.map_congr_left fun k hk => congrArg Int32.ofInt ?_
      rw [hnext (Nat.zero_lt_of_lt (List.mem_range.1 hk))]
      omega
    have hrest := ih (i + 1) hbound
    rw [hnumbers] at hrest
    rw [Run.rounds, hrest, List.range_succ_eq_map, List.map_cons, List.flatMap_cons, hfirst,
      List.map_map, Block.exec_append, Block.exec, exec_assignment_int]
    rfl

/-! ### The bounds -/

/-- The number that an expression gives in a store, as a bound of the loop with this counter. -/
def Expr.boundIn (e : Expr) (counter : Identifier) (store : Store) : Except Diagnostic Int32 := do
  let value ← e.eval store
  placed counter.position value.toInt

/-- A bound is found in the store, and finding it leaves the machine as it is. -/
theorem Run.bound_eq (counter : Identifier) (e : Expr) (m : Machine) :
    Run.bound counter e m = Run.lift (e.boundIn counter m.store) m := by
  have hget : (get : Run Machine) m = .ok m m := rfl
  rw [Run.bound, Run.eval, bind_assoc, bind_eq_of_ok hget, Expr.boundIn]
  cases e.eval m.store <;> rfl

/-! ### Loops -/

/-- With the bounds known, a loop does what its statements do in a row. -/
theorem loop_rounds_eq_exec (counter : Identifier) (body : Block) (first last : Int32) :
    (do
      Run.store counter (.int first)
      Run.rounds (fun i => do
        Run.store counter (.int i)
        Block.exec body) (roundCount first last) first) =
    Block.exec (unrolled counter body first last) := by
  have hbound : first.toInt + roundCount first last ≤ 2 ^ 31 := by
    have hfirst := first.toInt_lt
    have hlast := last.toInt_lt
    unfold roundCount
    omega
  rw [unrolled, Block.exec, exec_assignment_int, numbersThrough_eq, rounds_eq_exec _ _ _ _ hbound]

/-- A loop is its unrolling: it ends in the same way, with the same variables, input and output.  If
one of its bounds fails, it fails with that fault, and the machine is as before. -/
theorem Statement.exec_loop_eq_unrolled (counter : Identifier) (start stop : Expr) (body : Block)
    (m : Machine) :
    (Statement.loop counter start stop body).exec m =
      match start.boundIn counter m.store, stop.boundIn counter m.store with
      | .ok first, .ok last => Block.exec (unrolled counter body first last) m
      | .error fault, _ => .error fault m
      | .ok _, .error fault => .error fault m := by
  rw [Statement.exec]
  cases hstart : start.boundIn counter m.store with
  | error fault =>
    have hfirst : Run.bound counter start m = .error fault m := by rw [Run.bound_eq, hstart]; rfl
    rw [Run.bind_eq_of_error hfirst]
  | ok first =>
    have hfirst : Run.bound counter start m = .ok first m := by rw [Run.bound_eq, hstart]; rfl
    rw [Run.bind_eq_of_ok hfirst]
    cases hstop : stop.boundIn counter m.store with
    | error fault =>
      have hlast : Run.bound counter stop m = .error fault m := by rw [Run.bound_eq, hstop]; rfl
      rw [Run.bind_eq_of_error hlast]
    | ok last =>
      have hlast : Run.bound counter stop m = .ok last m := by rw [Run.bound_eq, hstop]; rfl
      rw [Run.bind_eq_of_ok hlast]
      exact congrFun (loop_rounds_eq_exec counter body first last) m

end MiniPL
