import MiniPL.Eval
import MiniPL.Input

/-!
# Running programs

A machine has a store, an input and an output.  A statement runs on a machine until it is done or
meets a fault; what was done before the fault stays.  Variables keep their type: what is stored in
one is converted to the type it has, and only a declaration changes the type.

Definitions: `Output`, `Machine`, `Run`, `Statement.exec`, `Block.exec`, `Program.exec`.
-/

namespace MiniPL

/-- Where a program writes.  A device with a fault takes no text. -/
structure Output where
  written : String := ""
  fault : Option String := none
  deriving DecidableEq, Repr

/-- What a program runs on. -/
structure Machine where
  store : Store
  input : Input
  output : Output
  deriving DecidableEq

/-- A piece of a run: it changes the machine, and ends with a value or a fault. -/
abbrev Run := EStateM Diagnostic Machine

/-- A machine without variables. -/
def Machine.initial (input : Input) : Machine :=
  ⟨.empty, input, {}⟩

namespace Run

/-- Goes on with a value, or ends with a fault. -/
def lift {α : Type} : Except Diagnostic α → Run α
  | .ok value => pure value
  | .error fault => throw fault

/-- The value of an expression. -/
def eval (e : Expr) : Run Value := do
  lift (e.eval (← get).store)

/-- Binds a name, whether it was bound or not. -/
def declare (name : String) (value : Value) : Run Unit :=
  modify fun machine => { machine with store := machine.store.declare name value }

/-- Stores a value in a declared variable, converted to the type of the variable. -/
def store (target : Identifier) (value : Value) : Run Unit := do
  let old ← lift ((← get).store.lookup target.name target.position)
  let converted ← lift (placed target.position (value.coerce old.ty))
  declare target.name converted

/-- Writes a text on behalf of a statement at a place. -/
def write (text : String) (position : Position) : Run Unit := do
  let machine ← get
  match machine.output.fault with
  | some message => if text.isEmpty then pure () else throw (.of (.device message) position)
  | none => set { machine with output.written := machine.output.written ++ text }

/-- Takes the next word of the input on behalf of a statement at a place. -/
def nextWord (position : Position) : Run String := do
  let machine ← get
  let (word, input) := machine.input.nextWord
  set { machine with input }
  lift (placed position word)

/-- The value of a bound of a loop. -/
def bound (counter : Identifier) (e : Expr) : Run Int32 := do
  lift (placed counter.position (← eval e).toInt)

/-- Runs a round for each of `count` numbers from `i` on. -/
def rounds (round : Int32 → Run Unit) : (count : Nat) → (i : Int32) → Run Unit
  | 0, _ => pure ()
  | count + 1, i => do
    round i
    rounds round count (i + 1)

end Run

/-- The number of rounds of a loop with the given bounds, both included. -/
def roundCount (start stop : Int32) : Nat :=
  (stop.toInt - start.toInt + 1).toNat

mutual

/-- Runs a statement. -/
def Statement.exec : Statement → Run Unit
  | .declaration name position ty initializer => do
    let value ←
      match initializer with
      | some e => do Run.lift (placed position ((← Run.eval e).coerce ty))
      | none => pure (.initial ty)
    Run.declare name value
  | .assignment target value => do
    Run.store target (← Run.eval value)
  | .loop counter start stop body => do
    let first ← Run.bound counter start
    let last ← Run.bound counter stop
    Run.store counter (.int first)
    let round (i : Int32) : Run Unit := do
      Run.store counter (.int i)
      Block.exec body
    Run.rounds round (roundCount first last) first
  | .print value position => do
    Run.write (← Run.eval value).text position
  | .read target => do
    Run.store target (.string (← Run.nextWord target.position))
  | .assert condition position => do
    let holds ← Run.lift (checkAssertion (← get).store condition position)
    Run.write (assertionReport holds) position

/-- Runs the statements of a block in order. -/
def Block.exec : Block → Run Unit
  | [] => pure ()
  | statement :: rest => do
    statement.exec
    Block.exec rest

end

/-- Runs a program. -/
def Program.exec (program : Program) : Run Unit :=
  Block.exec program.statements

end MiniPL
