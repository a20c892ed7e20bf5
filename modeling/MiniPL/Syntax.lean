import MiniPL.Position

/-!
# Programs

A program is a list of statements.  Its expressions carry the declared type of each variable they
mention, as far as it is known where the variable is written; from these an expression has a static
type tag (`Expr.tag`), by which the operators choose between their meanings on text and on numbers.
Operators and statements that can fail remember the place to report.

Definitions: `ValueType`, `TypeTable`, `BinaryOp`, `Identifier`, `Expr`, `Statement`, `Block`,
`Program`; `Program.prints` and `Program.reads` tell what running a program may do.
-/

namespace MiniPL

/-- The type of a variable or value. -/
inductive ValueType
  | int
  | string
  | bool
  deriving DecidableEq, Repr

/-- The word that declares a type. -/
def ValueType.word : ValueType → String
  | int => "int"
  | string => "string"
  | bool => "bool"

/-! ### Types known by name -/

/-- The type of each variable that has one. -/
abbrev TypeTable := String → Option ValueType

namespace TypeTable

/-- The table that knows no variable. -/
def empty : TypeTable := fun _ => none

/-- The table after a declaration. -/
def declare (types : TypeTable) (name : String) (ty : ValueType) : TypeTable :=
  fun other => if other = name then some ty else types other

end TypeTable

/-! ### Expressions -/

/-- The operators with two operands. -/
inductive BinaryOp
  | add
  | sub
  | mul
  | div
  | less
  | equal
  | and
  deriving DecidableEq, Repr

/-- The sign of an operator. -/
def BinaryOp.symbol : BinaryOp → String
  | add => "+"
  | sub => "-"
  | mul => "*"
  | div => "/"
  | less => "<"
  | equal => "="
  | and => "&"

/-- A mention of a variable, with its declared type where that is known. -/
structure Identifier where
  name : String
  ty : Option ValueType
  position : Position
  deriving DecidableEq, Repr

/-- An expression; an operator stands at the place of its sign. -/
inductive Expr
  | int (value : Int32)
  | string (value : String)
  | bool (value : Bool)
  | var (identifier : Identifier)
  | not (operand : Expr) (position : Position)
  | binary (op : BinaryOp) (left right : Expr) (position : Position)
  deriving DecidableEq, Repr

namespace Expr

/-- The static type tag: a literal has its own, a variable its declared one, and `!` gives a number.
A sum is text when both operands are tagged as text. -/
def tag : Expr → Option ValueType
  | int _ => some .int
  | string _ => some .string
  | bool _ => some .bool
  | var identifier => identifier.ty
  | not _ _ => some .int
  | binary .add left right _ =>
    if left.tag = some .string ∧ right.tag = some .string then some .string else some .int
  | binary .sub _ _ _ | binary .mul _ _ _ | binary .div _ _ _ => some .int
  | binary .less _ _ _ | binary .equal _ _ _ | binary .and _ _ _ => some .bool

/-- Whether two operands are both tagged as text. -/
def bothText (left right : Expr) : Bool :=
  left.tag == some .string && right.tag == some .string

end Expr

/-! ### Statements -/

/-- A statement.  A declaration stands at the place of the declared name, `print` and `assert` at
their own place. -/
inductive Statement
  | declaration (name : String) (position : Position) (ty : ValueType) (initializer : Option Expr)
  | assignment (target : Identifier) (value : Expr)
  | loop (counter : Identifier) (start stop : Expr) (body : List Statement)
  | print (value : Expr) (position : Position)
  | read (target : Identifier)
  | assert (condition : Expr) (position : Position)
  deriving Repr

/-- The statements of a program or of a loop body. -/
abbrev Block := List Statement

/-- The identifier that a declaration introduces; it carries the declared type. -/
def Identifier.declared (name : String) (position : Position) (ty : ValueType) : Identifier :=
  ⟨name, some ty, position⟩

/-- A whole program. -/
structure Program where
  statements : Block
  deriving Repr

/-! ### Statements of a kind -/

mutual

/-- Whether a statement, or one in its body, satisfies `p`. -/
def Statement.any (p : Statement → Bool) : Statement → Bool
  | .loop counter start stop body => p (.loop counter start stop body) || Block.any p body
  | statement => p statement

/-- Whether a statement of a block, or one in its body, satisfies `p`. -/
def Block.any (p : Statement → Bool) : Block → Bool
  | [] => false
  | statement :: rest => statement.any p || Block.any p rest

end

/-- Whether a program holds a `print` statement. -/
def Program.prints (program : Program) : Bool :=
  Block.any (fun | .print _ _ => true | _ => false) program.statements

/-- Whether a program holds a `read` statement. -/
def Program.reads (program : Program) : Bool :=
  Block.any (fun | .read _ => true | _ => false) program.statements

end MiniPL
