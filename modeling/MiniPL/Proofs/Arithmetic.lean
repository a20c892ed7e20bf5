import Mathlib.Data.Int.ModEq
import MiniPL.Proofs.Textless

/-!
# Arithmetic modulo 2^32

Each sum, difference and product wraps around on its own.  Since `Int32.ofInt` turns the three
operations on integers into those on words, wrapping on the way makes no difference to the result:
an expression of these operators has as its value the word of what it amounts to in unbounded
integers, however often parts of it wrap (`Expr.IsArithmetic.amountsTo`).  Such an expression is
never tagged as text, so that `+` never joins.

Main statement: `Expr.eval_modEq_unbounded`.
-/

namespace MiniPL

/-! ### Unbounded arithmetic -/

/-- Sums, differences and products have a meaning on unbounded integers. -/
def BinaryOp.onIntegers? : BinaryOp → Option (Int → Int → Int)
  | add => some (· + ·)
  | sub => some (· - ·)
  | mul => some (· * ·)
  | div | less | equal | and => none

/-- The integer as which a value counts; a text counts as none, for which zero stands. -/
def Value.integer : Value → Int
  | int n => n.toInt
  | bool b => b.toInt
  | string _ => 0

namespace Expr

/-- Sums, differences and products of integer literals, truth values and variables that are not
tagged as text. -/
def IsArithmetic : Expr → Prop
  | int _ | bool _ => True
  | var identifier => identifier.ty ≠ some .string
  | binary op left right _ => op.onIntegers?.isSome ∧ left.IsArithmetic ∧ right.IsArithmetic
  | string _ | not _ _ => False

/-- What an expression amounts to in unbounded integers; zero where it is no arithmetic. -/
def unbounded (store : Store) : Expr → Int
  | int n => n.toInt
  | bool b => b.toInt
  | var identifier => ((store.get? identifier.name).map Value.integer).getD 0
  | binary op left right _ =>
    match op.onIntegers? with
    | some operation => operation (left.unbounded store) (right.unbounded store)
    | none => 0
  | string _ | not _ _ => 0

/-- Every variable that the expression mentions holds a number or a truth value. -/
def HoldsNumbers (e : Expr) (store : Store) : Prop :=
  ∀ identifier ∈ e.mentions, ∃ value, store.get? identifier.name = some value ∧ value.Textless

end Expr

/-! ### Words of unbounded integers -/

theorem Value.Textless.toInt_eq {value : Value} (h : value.Textless) :
    value.toInt = .ok (Int32.ofInt value.integer) := by
  cases value with
  | int n => rw [toInt, integer, Int32.ofInt_toInt]
  | bool b => cases b <;> rfl
  | string s => exact absurd rfl h

/-- An operator on words gives the word of what it gives on integers. -/
theorem BinaryOp.apply_ofInt {op : BinaryOp} {operation : Int → Int → Int}
    (hop : op.onIntegers? = some operation) {left right : Value} {x y : Int}
    (hleft : left.toInt = .ok (Int32.ofInt x)) (hright : right.toInt = .ok (Int32.ofInt y)) :
    op.apply false left right = .ok (.int (Int32.ofInt (operation x y))) := by
  cases op with
  | add =>
    cases hop
    rw [apply, hleft, hright, Int32.ofInt_add]
    rfl
  | sub =>
    cases hop
    rw [apply, hleft, hright, Int32.ofInt_sub]
    rfl
  | mul =>
    cases hop
    rw [apply, hleft, hright, Int32.ofInt_mul]
    rfl
  | div | less | equal | and => cases hop

namespace Expr

variable {store : Store}

theorem IsArithmetic.textless {e : Expr} (h : e.IsArithmetic) : e.Textless := by
  induction e with
  | int | bool => trivial
  | string | not => exact h.elim
  | var => exact h
  | binary op left right position ihleft ihright => exact ⟨ihleft h.2.1, ihright h.2.2⟩

theorem holdsNumbers_binary {op : BinaryOp} {left right : Expr} {position : Position} :
    (binary op left right position).HoldsNumbers store ↔
      left.HoldsNumbers store ∧ right.HoldsNumbers store :=
  List.forall_mem_append

/-- The expression has a value, and as a number that is the word of the integer. -/
def AmountsTo (e : Expr) (store : Store) (z : Int) : Prop :=
  ∃ value, e.eval store = .ok value ∧ value.toInt = .ok (Int32.ofInt z)

/-- An operator wraps around what its operands amount to. -/
theorem eval_binary_of_amountsTo {op : BinaryOp} {left right : Expr} {position : Position}
    (h : (binary op left right position).IsArithmetic)
    (hleft : left.AmountsTo store (left.unbounded store))
    (hright : right.AmountsTo store (right.unbounded store)) :
    (binary op left right position).eval store =
      .ok (.int (Int32.ofInt ((binary op left right position).unbounded store))) := by
  obtain ⟨hop, hleftArithmetic, -⟩ := h
  obtain ⟨operation, hoperation⟩ := Option.isSome_iff_exists.1 hop
  obtain ⟨a, ha, hx⟩ := hleft
  obtain ⟨b, hb, hy⟩ := hright
  have htext : left.bothText right = false := bothText_eq_false hleftArithmetic.textless.tag_ne
  have happly := BinaryOp.apply_ofInt hoperation hx hy
  rw [eval, ha, hb, htext, unbounded, hoperation]
  show placed position (op.apply false a b) = _
  rw [happly]
  rfl

theorem IsArithmetic.amountsTo {e : Expr} (h : e.IsArithmetic) (hstore : e.HoldsNumbers store) :
    e.AmountsTo store (e.unbounded store) := by
  induction e with
  | int n => exact ⟨.int n, rfl, (Value.textless_int n).toInt_eq⟩
  | bool b => exact ⟨.bool b, rfl, (Value.textless_bool b).toInt_eq⟩
  | string | not => exact h.elim
  | var identifier =>
    obtain ⟨value, hget, hvalue⟩ := hstore identifier (List.mem_singleton_self _)
    refine ⟨value, by rw [eval, Store.lookup, hget], ?_⟩
    rw [unbounded, hget]
    exact hvalue.toInt_eq
  | binary op left right position ihleft ihright =>
    obtain ⟨hleft, hright⟩ := holdsNumbers_binary.1 hstore
    exact ⟨_, eval_binary_of_amountsTo h (ihleft h.2.1 hleft) (ihright h.2.2 hright), rfl⟩

/-- Arithmetic with at least one operator has a value: the number of 32 bits that is congruent to
what the expression amounts to in unbounded integers. -/
theorem eval_modEq_unbounded {op : BinaryOp} {left right : Expr} {position : Position}
    (h : (binary op left right position).IsArithmetic)
    (hstore : (binary op left right position).HoldsNumbers store) :
    ∃ n : Int32, (binary op left right position).eval store = .ok (.int n) ∧
      n.toInt ≡ (binary op left right position).unbounded store [ZMOD 2 ^ 32] ∧
      -2147483648 ≤ n.toInt ∧ n.toInt ≤ 2147483647 := by
  obtain ⟨hleft, hright⟩ := holdsNumbers_binary.1 hstore
  have heval := eval_binary_of_amountsTo h (h.2.1.amountsTo hleft) (h.2.2.amountsTo hright)
  refine ⟨_, heval, ?_, Int32.le_toInt _, Int.le_of_lt_add_one (Int32.toInt_lt _)⟩
  rw [Int32.toInt_ofInt]
  exact Int.bmod_emod

/-- In `(2147483647 + 1) * n - b`, with `n` at minus three and `b` true, every operator wraps. -/
theorem eval_modEq_unbounded_wrapping :
    let sum := binary .add (int 2147483647) (int 1) .start
    let product := binary .mul sum (var ⟨"n", some .int, .start⟩) .start
    let e := binary .sub product (var ⟨"b", none, .start⟩) .start
    let store := (Store.empty.declare "n" (.int (-3))).declare "b" (.bool true)
    e.IsArithmetic ∧ e.HoldsNumbers store ∧ e.unbounded store = -6442450945 ∧
      ∃ n : Int32, e.eval store = .ok (.int n) ∧ n.toInt ≡ e.unbounded store [ZMOD 2 ^ 32] ∧
        -2147483648 ≤ n.toInt ∧ n.toInt ≤ 2147483647 := by
  intro sum product e store
  have h : e.IsArithmetic := by simp [e, product, sum, IsArithmetic, BinaryOp.onIntegers?]
  have hstore : e.HoldsNumbers store := by
    refine List.forall_mem_cons.2 ⟨?_, List.forall_mem_singleton.2 ?_⟩
    · exact ⟨.int (-3), by decide +kernel, Value.textless_int _⟩
    · exact ⟨.bool true, by decide +kernel, Value.textless_bool _⟩
  exact ⟨h, hstore, by decide +kernel, eval_modEq_unbounded h hstore⟩

end Expr

end MiniPL
