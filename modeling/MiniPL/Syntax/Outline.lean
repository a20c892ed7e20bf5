import MiniPL.Syntax
import MiniPL.Text.Decimal
import MiniPL.Text.Quoted

/-!
# Outlines

An outline shows a program as a tree of labels, one label a line, each level two spaces deeper than
the one above.  It shows everything but the places.

Definitions: `Outline`, `Outline.text`, `Program.outline`, `Program.outlineText`.
-/

namespace MiniPL

/-- A tree of labels. -/
inductive Outline
  | node (label : String) (children : List Outline)
  deriving Repr

namespace Outline

mutual

/-- The lines of an outline at a depth. -/
def lines (depth : Nat) : Outline → List String
  | node label children =>
    (String.ofList (List.replicate (2 * depth) ' ') ++ label) :: linesAll (depth + 1) children

/-- The lines of several outlines at one depth. -/
def linesAll (depth : Nat) : List Outline → List String
  | [] => []
  | outline :: rest => outline.lines depth ++ linesAll depth rest

end

/-- The text of an outline, a line feed after each line. -/
def text (outline : Outline) : String :=
  String.join ((outline.lines 0).map (· ++ "\n"))

/-- A label without anything below it. -/
def leaf (label : String) : Outline := node label []

end Outline

/-! ### What a program looks like -/

/-- A variable with its type tag. -/
def Identifier.outline (identifier : Identifier) : Outline :=
  match identifier.ty with
  | some ty => .leaf ("Identifier " ++ identifier.name ++ " : " ++ ty.word)
  | none => .leaf ("Identifier " ++ identifier.name)

/-- An expression with its operands below it. -/
def Expr.outline : Expr → Outline
  | int n => .leaf ("Int " ++ Text.Decimal.write n)
  | string s => .leaf ("String " ++ Text.Quoted.encode s)
  | bool b => .leaf ("Bool " ++ if b then "true" else "false")
  | var identifier => identifier.outline
  | not operand _ => .node "UnaryOp !" [operand.outline]
  | binary op left right _ => .node ("BinaryOp " ++ op.symbol) [left.outline, right.outline]

/-- An assignment, also the one inside a declaration or a loop header. -/
def Outline.assignment (target : Identifier) (value : Expr) : Outline :=
  .node "Assignment" [target.outline, value.outline]

mutual

/-- A statement with its parts below it. -/
def Statement.outline : Statement → Outline
  | .declaration name position ty initializer =>
    .node "Statement" [.node ("Declaration " ++ name ++ " : " ++ ty.word)
      (initializer.map (Outline.assignment (.declared name position ty))).toList]
  | .assignment target value => .node "Statement" [Outline.assignment target value]
  | .loop counter start stop body =>
    .node "Statement" [.node "ForLoop" [
      .node "ForControl" [
        Outline.assignment counter start,
        .node "ForCondition" [counter.outline, stop.outline]],
      .node "Block" (Block.outlines body)]]
  | .print value _ => .node "Statement" [.node "Print" [value.outline]]
  | .read target => .node "Statement" [.node "Read" [target.outline]]
  | .assert condition _ => .node "Statement" [.node "Assert" [condition.outline]]

/-- The statements of a block. -/
def Block.outlines : Block → List Outline
  | [] => []
  | statement :: rest => statement.outline :: Block.outlines rest

end

/-- A program with its statements below it. -/
def Program.outline (program : Program) : Outline :=
  .node "Program" [.node "Block" (Block.outlines program.statements)]

/-- The outline of a program as text. -/
def Program.outlineText (program : Program) : String :=
  program.outline.text

end MiniPL
