import MiniPL.Syntax

/-!
# Nodes of a program

The parts of a program, each before the parts it is made of.  Expressions and assertions have a
value of their own; every other part is a form that only holds others.

Definitions: `Form`, `Node`, `Program.nodes`.
-/

namespace MiniPL

/-- A part of a program that holds other parts and has no value of its own. -/
inductive Form
  | program
  | block
  | statement
  | declaration
  | assignment
  | loop
  | loopControl
  | loopCondition
  | print
  | read
  deriving DecidableEq, Repr

/-- A part of a program. -/
inductive Node
  | form (form : Form)
  | assertion (condition : Expr) (position : Position)
  | expr (expr : Expr)
  deriving DecidableEq, Repr

/-- An expression, then its operands from left to right, each with its own. -/
def Expr.nodes : Expr → List Node
  | not operand position => .expr (not operand position) :: operand.nodes
  | binary op left right position =>
    .expr (binary op left right position) :: (left.nodes ++ right.nodes)
  | e => [.expr e]

mutual

/-- A statement and its parts. -/
def Statement.nodes : Statement → List Node
  | .declaration _ _ _ none => [.form .statement, .form .declaration]
  | .declaration _ _ _ (some value) =>
    .form .statement :: .form .declaration :: .form .assignment :: value.nodes
  | .assignment _ value => .form .statement :: .form .assignment :: value.nodes
  | .loop _ start stop body =>
    [.form .statement, .form .loop, .form .loopControl, .form .assignment] ++ start.nodes ++
      .form .loopCondition :: stop.nodes ++ .form .block :: Block.nodes body
  | .print value _ => .form .statement :: .form .print :: value.nodes
  | .read _ => [.form .statement, .form .read]
  | .assert condition position =>
    .form .statement :: .assertion condition position :: condition.nodes

/-- The statements of a block and their parts. -/
def Block.nodes : Block → List Node
  | [] => []
  | statement :: rest => statement.nodes ++ Block.nodes rest

end

/-- Every part of a program, each before its own parts, in the order in which they are written. -/
def Program.nodes (program : Program) : List Node :=
  .form .program :: .form .block :: Block.nodes program.statements

end MiniPL
