import MiniPL.Shell
import MiniPL.Syntax.Json

/-!
# The command line

With a file the program in it is read; its diagnostics, its tree and what it does when it runs are
shown as the options ask.  Without a file the interactive shell starts.

Definitions: `Invocation`, `Invocation.ofArgs?`, `Surroundings`, `Reply`, `Invocation.reply`.
-/

namespace MiniPL

open Text (Palette)

/-- The forms in which a tree is shown. -/
inductive TreeFormat
  | outline
  | json
  deriving DecidableEq, Repr

/-- The format that a word names. -/
def TreeFormat.ofWord? : String → Option TreeFormat
  | "tree" => some .outline
  | "json" => some .json
  | _ => none

/-- What the arguments ask for. -/
structure Invocation where
  file : Option String := none
  run : Bool := false
  emit : Option TreeFormat := none
  quiet : Bool := false
  deriving DecidableEq, Repr

namespace Invocation

/-- Takes the name of the file, of which there is at most one. -/
def takeFile (invocation : Invocation) (file : String) : Option Invocation :=
  if invocation.file.isNone then some { invocation with file } else none

/-- Takes the format of the tree, of which there is at most one. -/
def takeFormat (invocation : Invocation) (word : String) : Option Invocation :=
  match invocation.emit, TreeFormat.ofWord? word with
  | none, some format => some { invocation with emit := format }
  | _, _ => none

/-- Goes on reading arguments. -/
def readArgs (invocation : Invocation) : List String → Option Invocation
  | [] => some invocation
  | "--run" :: args =>
    if invocation.run then none else readArgs { invocation with run := true } args
  | "--quiet" :: args | "-q" :: args =>
    if invocation.quiet then none else readArgs { invocation with quiet := true } args
  | "--emit" :: word :: args => (invocation.takeFormat word).bind fun next => readArgs next args
  | "--emit=tree" :: args => (invocation.takeFormat "tree").bind fun next => readArgs next args
  | "--emit=json" :: args => (invocation.takeFormat "json").bind fun next => readArgs next args
  | ["--", file] => invocation.takeFile file
  | arg :: args =>
    if arg.startsWith "-" && arg != "-" then none
    else (invocation.takeFile arg).bind fun next => readArgs next args

/-- What the arguments ask for; none if they make no sense. -/
def ofArgs? (args : List String) : Option Invocation :=
  readArgs {} args

end Invocation

/-- What an invocation finds around it: the files, with a message where one cannot be read, the
standard input, and the fault of the standard output, if it has one. -/
structure Surroundings where
  palette : Palette
  files : String → Except String (List UInt8)
  input : List UInt8
  fault : Option String := none

/-- How an invocation ends: the exit code and the texts of the two output streams. -/
structure Reply where
  code : Nat
  output : String
  errors : String
  deriving DecidableEq, Repr

/-- The text of a file, or a message if it cannot be read. -/
def Surroundings.readText (surroundings : Surroundings) (file : String) : Except String String := do
  let bytes ← surroundings.files file
  match String.fromUTF8? ⟨bytes.toArray⟩ with
  | some text => return text
  | none => throw Cause.notUtf8.message

namespace Invocation

/-- The tree of a program in a format. -/
def treeText (program : Program) : TreeFormat → String
  | .outline => program.outlineText
  | .json => program.json.pretty ++ "\n"

/-- The report of a diagnostic about the program in a file. -/
def reportIn (palette : Palette) (file source : String) (diagnostic : Diagnostic) : String :=
  (diagnostic.inSource (some file) source).report palette

/-- The reply about the program in a file. -/
def replyAbout (invocation : Invocation) (surroundings : Surroundings) (file : String) : Reply :=
  let palette := surroundings.palette
  match surroundings.readText file with
  | .error message => ⟨1, "", Shell.errorText palette ("Cannot read " ++ file ++ ": " ++ message)⟩
  | .ok source =>
    let result := parseText source
    let reports :=
      if invocation.quiet then ""
      else String.join (result.diagnostics.map (reportIn palette file source))
    let tree := (invocation.emit.map (treeText result.program)).getD ""
    if invocation.run then
      let machine : Machine := ⟨.empty, .ofBytes surroundings.input, ⟨tree, surroundings.fault⟩⟩
      match result.program.exec machine with
      | .ok _ after => ⟨0, after.output.written, reports⟩
      | .error fault after =>
        ⟨1, after.output.written, reports ++ reportIn palette file source fault⟩
    else ⟨0, tree, reports⟩

/-- Whether the program in a file is to run and may read. -/
def awaitsInput (invocation : Invocation) (surroundings : Surroundings) (file : String) : Bool :=
  match surroundings.readText file with
  | .error _ => false
  | .ok source => invocation.run && (parseText source).program.reads

/-- The reply of the interactive shell. -/
def replyOfShell (surroundings : Surroundings) : Reply :=
  let shell := Shell.initial surroundings.palette
  let final := shell.interact (Input.linesOfBytes surroundings.input)
  ⟨0, final.machine.output.written, final.errors⟩

/-- The reply to an invocation. -/
def reply (invocation : Invocation) (surroundings : Surroundings) : Reply :=
  match invocation.file with
  | some file => invocation.replyAbout surroundings file
  | none => replyOfShell surroundings

end Invocation

end MiniPL
