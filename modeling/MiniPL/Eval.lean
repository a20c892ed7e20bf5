import MiniPL.Store
import MiniPL.Syntax.Node

/-!
# Evaluation

An expression has a value in a store, or a fault.  Operands are evaluated from left to right, both
always.  Sums and products wrap around at 32 bits.  `+`, `=` and `<` work on text when both operands
are tagged as text: they join, compare for equality, and compare lengths.

Definitions: `BinaryOp.apply`, `Expr.eval`, `checkAssertion`, `Node.evaluate`.
-/

namespace MiniPL

/-- Puts the fault of an operation at a place. -/
def placed {α : Type} (position : Position) : Except Cause α → Except Diagnostic α :=
  Except.mapError fun cause => .of cause position

namespace BinaryOp

/-- A quotient, cut off towards zero. -/
def quotient (a b : Int32) : Except Cause Int32 :=
  if b = 0 then .error .divisionByZero
  else if a = Int32.minValue ∧ b = -1 then
    .error (.overflow (Text.Decimal.write a ++ " / " ++ Text.Decimal.write b))
  else .ok (a / b)

/-- Applies an operator to text or, if `onText` is false, to numbers and truth values. -/
def apply (op : BinaryOp) (onText : Bool) (left right : Value) : Except Cause Value :=
  match op, onText with
  | add, true => .ok (.string (left.text ++ right.text))
  | equal, true => .ok (.bool (left.text == right.text))
  | less, true => .ok (.bool (left.text.length < right.text.length))
  | add, false => do
    let a ← left.toInt
    let b ← right.toInt
    return .int (a + b)
  | equal, false => do
    let a ← left.toInt
    let b ← right.toInt
    return .bool (a == b)
  | less, false => do
    let a ← left.toInt
    let b ← right.toInt
    return .bool (a < b)
  | sub, _ => do
    let a ← left.toInt
    let b ← right.toInt
    return .int (a - b)
  | mul, _ => do
    let a ← left.toInt
    let b ← right.toInt
    return .int (a * b)
  | div, _ => do
    let a ← left.toInt
    let b ← right.toInt
    return .int (← quotient a b)
  | and, _ => do
    let a ← left.toBool
    let b ← right.toBool
    return .bool (a && b)

end BinaryOp

/-- The value of an expression in a store. -/
def Expr.eval (store : Store) : Expr → Except Diagnostic Value
  | int n => .ok (.int n)
  | string s => .ok (.string s)
  | bool b => .ok (.bool b)
  | var identifier => store.lookup identifier.name identifier.position
  | not operand position => do
    let value ← operand.eval store
    let truth ← placed position value.toBool
    return .int (if truth then 0 else 1)
  | binary op left right position => do
    let a ← left.eval store
    let b ← right.eval store
    placed position (op.apply (left.bothText right) a b)

/-! ### Assertions -/

/-- Whether an assertion holds in a store. -/
def checkAssertion (store : Store) (condition : Expr) (position : Position) :
    Except Diagnostic Bool := do
  let value ← condition.eval store
  placed position value.toBool

/-- What an assertion writes. -/
def assertionReport (holds : Bool) : String :=
  if holds then "Assertion succeeded\n" else "Assertion failed\n"

/-! ### Nodes -/

/-- The value of a form, which does nothing by itself. -/
def Form.value : Value := .int 1

/-- The value of a node in a store, and what evaluating it writes. -/
def Node.evaluate (store : Store) : Node → Except Diagnostic Value × String
  | form _ => (.ok Form.value, "")
  | expr e => (e.eval store, "")
  | assertion condition position =>
    match checkAssertion store condition position with
    | .ok holds => (.ok (.bool holds), assertionReport holds)
    | .error fault => (.error fault, "")

end MiniPL
