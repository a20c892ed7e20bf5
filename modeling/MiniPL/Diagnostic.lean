import MiniPL.Text.Lines
import MiniPL.Token

/-!
# Diagnostics

A diagnostic has a cause, which fixes its kind and its message, and a place.  It can be attached to
a source text, which adds the offending line, and it can carry help, a suggestion and a note.

Definitions: `ErrorKind`, `Expectation`, `Cause`, `Diagnostic`; `Diagnostic.of` makes one,
`Diagnostic.orAt` gives it a place if it has none, `Diagnostic.inSource` attaches it to a source.
-/

namespace MiniPL

/-- The kinds of errors. -/
inductive ErrorKind
  | lexicalError
  | syntaxError
  | unrecognizedStatement
  | undefinedVariable
  | divisionByZero
  | overflow
  | typeError
  | ioError
  deriving DecidableEq, Repr

/-- How reports name a kind of error. -/
def ErrorKind.text : ErrorKind → String
  | lexicalError => "Lexical Error"
  | syntaxError => "Syntax Error"
  | unrecognizedStatement => "Unrecognized Statement"
  | undefinedVariable => "Undefined Variable"
  | divisionByZero => "Division By Zero"
  | overflow => "Arithmetic Overflow"
  | typeError => "Type Error"
  | ioError => "I/O Error"

/-- What the grammar asks for at some place. -/
inductive Expectation
  | token (kind : TokenKind)
  | statement
  | typeName
  | operand
  | described (text : String)
  deriving DecidableEq, Repr

/-- How messages name an expectation. -/
def Expectation.text : Expectation → String
  | token kind => kind.text
  | statement => "statement"
  | typeName => "type int, string or bool"
  | operand => "integer, string, bool, identifier or '('"
  | described text => text

/-- Why something failed. -/
inductive Cause
  /-- A piece of the source starts no token. -/
  | unclassified (found : Token)
  /-- The grammar asks for something else here. -/
  | unexpected (expected : Expectation) (found : Token)
  /-- A keyword stands where a statement should start, and starts none. -/
  | unrecognizedStatement (found : Token)
  /-- An integer literal does not fit in 32 bits. -/
  | literalOutOfRange (digits : String)
  /-- A variable was never declared. -/
  | undefinedVariable (name : String)
  /-- A divisor is zero. -/
  | divisionByZero
  /-- A result fits in 32 bits neither directly nor by wrapping. -/
  | overflow (expression : String)
  /-- A text writes no integer. -/
  | notInteger (text : String)
  /-- A text writes no boolean. -/
  | notBoolean (text : String)
  /-- The input has no word left. -/
  | endOfInput
  /-- A line of input is not UTF-8. -/
  | notUtf8
  /-- The output device reports a fault. -/
  | device (message : String)
  /-- Any other error, with its message. -/
  | other (kind : ErrorKind) (message : String)
  deriving DecidableEq, Repr

namespace Cause

/-- The kind of error that a cause makes. -/
def kind : Cause → ErrorKind
  | unclassified _ => .lexicalError
  | unexpected _ _ => .syntaxError
  | unrecognizedStatement _ => .unrecognizedStatement
  | literalOutOfRange _ => .syntaxError
  | undefinedVariable _ => .undefinedVariable
  | divisionByZero => .divisionByZero
  | overflow _ => .overflow
  | notInteger _ => .typeError
  | notBoolean _ => .typeError
  | endOfInput => .ioError
  | notUtf8 => .ioError
  | device _ => .ioError
  | other kind _ => kind

/-- The message of a cause. -/
def message : Cause → String
  | unclassified found => "Unrecognized input '" ++ found.lexeme ++ "'"
  | unexpected expected found => "Expected " ++ expected.text ++ ", got " ++ found.describe
  | unrecognizedStatement found =>
    "Expected keyword var, for, read, print or assert, got '" ++ found.lexeme ++ "'"
  | literalOutOfRange digits => "Integer literal '" ++ digits ++ "' is out of range"
  | undefinedVariable name => "Variable '" ++ name ++ "' is not declared"
  | divisionByZero => "Attempted to divide by zero"
  | overflow expression => "Result of " ++ expression ++ " does not fit in a 32-bit integer"
  | notInteger text => "Cannot convert \"" ++ text ++ "\" to int"
  | notBoolean text => "Cannot convert \"" ++ text ++ "\" to bool"
  | endOfInput => "Unexpected end of input"
  | notUtf8 => "stream did not contain valid UTF-8"
  | device message => message
  | other _ message => message

/-- What the grammar asked for, where that is the cause. -/
def expected? : Cause → Option Expectation
  | unexpected expected _ => some expected
  | unrecognizedStatement _ => some .statement
  | _ => none

/-- The offending token, where there is one. -/
def found? : Cause → Option Token
  | unclassified found => some found
  | unexpected _ found => some found
  | unrecognizedStatement found => some found
  | _ => none

/-- The advice that comes with a cause. -/
def help? : Cause → Option String
  | undefinedVariable name => some ("declare it first with 'var " ++ name ++ " : <type>;'")
  | _ => none

/-- The remark that comes with a cause. -/
def note? : Cause → Option String
  | unrecognizedStatement _ => some "parsing of the enclosing block stops here"
  | _ => none

end Cause

/-- An error with the place to which it points. -/
structure Diagnostic where
  cause : Cause
  position : Position
  file : Option String := none
  sourceLine : Option String := none
  suggestion : Option String := none
  help : Option String := none
  note : Option String := none
  deriving DecidableEq, Repr

namespace Diagnostic

/-- The diagnostic of a cause at a place, with the advice and remark that come with the cause. -/
def of (cause : Cause) (position : Position) : Diagnostic :=
  { cause, position, help := cause.help?, note := cause.note? }

/-- The diagnostic of a token that starts nothing. -/
def unclassified (found : Token) : Diagnostic :=
  of (.unclassified found) found.position

/-- The diagnostic of a token other than the one the grammar asks for. -/
def unexpected (expected : Expectation) (found : Token) : Diagnostic :=
  of (.unexpected expected found) found.position

/-- The diagnostic of a keyword that starts no statement. -/
def unrecognizedStatement (found : Token) : Diagnostic :=
  of (.unrecognizedStatement found) found.position

/-- The kind of error. -/
def kind (diagnostic : Diagnostic) : ErrorKind :=
  diagnostic.cause.kind

/-- The message. -/
def message (diagnostic : Diagnostic) : String :=
  diagnostic.cause.message

/-- Gives a place to a diagnostic that has none. -/
def orAt (diagnostic : Diagnostic) (position : Position) : Diagnostic :=
  if diagnostic.position.line = 0 then { diagnostic with position, file := none } else diagnostic

/-- Attaches a diagnostic to a source: the name of its file, if it has one, and the line at which
the diagnostic points, if the source has that line. -/
def inSource (diagnostic : Diagnostic) (file : Option String) (source : String) : Diagnostic :=
  let line :=
    if diagnostic.position.line = 0 then none
    else (Text.lines source)[diagnostic.position.line - 1]?
  { diagnostic with file := file <|> diagnostic.file, sourceLine := line <|> diagnostic.sourceLine }

/-- The place as written in reports: `file:line:column`, or `line:column` without a file. -/
def place (diagnostic : Diagnostic) : String :=
  match diagnostic.file with
  | some file => file ++ ":" ++ diagnostic.position.text
  | none => diagnostic.position.text

end Diagnostic

end MiniPL
