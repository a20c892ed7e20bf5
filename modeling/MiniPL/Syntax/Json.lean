import MiniPL.Syntax
import MiniPL.Text.Json

/-!
# Programs as JSON

The whole tree of a program, with its places and type tags.  What the tree holds once but stands for
two things, the target of an initializer and the counter of a loop, is written twice.

Definition: `Program.json`.
-/

namespace MiniPL

open Text (Json)

/-- A place. -/
def Position.json (position : Position) : Json :=
  .record [("line", .number position.line), ("column", .number position.column)]

/-- The word of a type. -/
def ValueType.json (ty : ValueType) : Json :=
  .text ty.word

/-- The name of an operator. -/
def BinaryOp.json : BinaryOp → Json
  | add => .text "Add"
  | sub => .text "Sub"
  | mul => .text "Mul"
  | div => .text "Div"
  | less => .text "Less"
  | equal => .text "Equal"
  | and => .text "And"

/-- A variable with its type tag, null where there is none. -/
def Identifier.json (identifier : Identifier) : Json :=
  .record [
    ("name", .text identifier.name),
    ("ty", (identifier.ty.map ValueType.json).getD .null),
    ("location", identifier.position.json)]

/-- An expression, as a record whose one member names its form. -/
def Expr.json : Expr → Json
  | int n => .record [("IntLiteral", .number n.toInt)]
  | string s => .record [("StringLiteral", .text s)]
  | bool b => .record [("BoolLiteral", .bool b)]
  | var identifier => .record [("Identifier", identifier.json)]
  | not operand position =>
    .record [("UnaryOp", .record [
      ("op", .text "Not"), ("operand", operand.json), ("location", position.json)])]
  | binary op left right position =>
    .record [("BinaryOp", .record [
      ("op", op.json), ("left", left.json), ("right", right.json), ("location", position.json)])]

/-- An assignment, also the one inside a declaration or a loop header. -/
def assignmentJson (target : Identifier) (value : Expr) : Json :=
  .record [("target", target.json), ("value", value.json)]

mutual

/-- A statement, as a record whose one member names its form. -/
def Statement.json : Statement → Json
  | .declaration name position ty initializer =>
    let target := Identifier.declared name position ty
    .record [("Declaration", .record [
      ("target", target.json),
      ("ty", ty.json),
      ("initializer", (initializer.map (assignmentJson target)).getD .null)])]
  | .assignment target value => .record [("Assignment", assignmentJson target value)]
  | .loop counter start stop body =>
    .record [("ForLoop", .record [
      ("control", .record [
        ("init", assignmentJson counter start),
        ("condition", .record [("variable", counter.json), ("end", stop.json)])]),
      ("body", .record [("statements", .list (Block.json body))])])]
  | .print value position =>
    .record [("Print", .record [("value", value.json), ("location", position.json)])]
  | .read target => .record [("Read", .record [("target", target.json)])]
  | .assert condition position =>
    .record [("Assert", .record [("condition", condition.json), ("location", position.json)])]

/-- The statements of a block. -/
def Block.json : Block → List Json
  | [] => []
  | statement :: rest => statement.json :: Block.json rest

end

/-- A program. -/
def Program.json (program : Program) : Json :=
  .record [("block", .record [("statements", .list (Block.json program.statements))])]

end MiniPL
