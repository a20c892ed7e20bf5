import MiniPL.Diagnostic.Report
import MiniPL.Machine
import MiniPL.Parser.Program
import MiniPL.Syntax.Outline
import MiniPL.Text.Styled

/-!
# The interactive shell

The shell reads lines.  A line that starts with `:` while no statement is open is a command; other
lines are collected until they hold whole statements, which then run on the machine of the session.
The prompt and the programs read the same lines: the first `read` that needs a line takes all that
are left.

Definitions: `isComplete`, `Entry` and `Entry.ofLine` for what a line amounts to, `Command`, `Shell`
with `Shell.runText`, `Shell.enter` and `Shell.step`, and `Shell.interact` for a whole session.
-/

namespace MiniPL

open Text (Palette Style Colour)

/-! ### What a line amounts to -/

/-- Whether a text holds whole statements: its last token is `;`, and it has no more `do` than
`end`.  A text without tokens is complete as well. -/
def isComplete (text : String) : Bool :=
  let tokens := tokenize text
  match tokens.getLast? with
  | none => true
  | some last =>
    last.kind == .semicolon &&
      tokens.countP (·.isKeyword .do) ≤ tokens.countP (·.isKeyword .end)

/-- What a line amounts to, after the lines collected so far. -/
inductive Entry
  /-- A command to the shell. -/
  | command (text : String)
  /-- More lines are needed behind the collected text. -/
  | unfinished (buffer : String)
  /-- The collected text is complete. -/
  | complete (text : String)
  deriving DecidableEq, Repr

/-- Whether a text starts with a colon. -/
def startsWithColon (text : String) : Bool :=
  text.toList.head? == some ':'

/-- What a line amounts to, after the lines in the buffer. -/
def Entry.ofLine (buffer line : String) : Entry :=
  if buffer.isEmpty && startsWithColon (Text.trim line) then .command (Text.trim line)
  else
    let text := buffer ++ line ++ "\n"
    if isComplete text then .complete text else .unfinished text

/-- The commands to the shell. -/
inductive Command
  | help
  | quit
  | vars
  | reset
  | outline
  | unknown (text : String)
  deriving DecidableEq, Repr

/-- The command that a text writes. -/
def Command.ofText (text : String) : Command :=
  if text = ":help" ∨ text = ":h" then help
  else if text = ":quit" ∨ text = ":q" ∨ text = ":exit" then quit
  else if text = ":vars" ∨ text = ":v" then vars
  else if text = ":reset" ∨ text = ":r" then reset
  else if text = ":ast" ∨ text = ":a" then outline
  else unknown text

/-! ### Texts of the shell -/

namespace Shell

/-- The style of headings. -/
def heading : Style := { bold := true, colour := some .brightCyan }

/-- The style of remarks aside. -/
def aside : Style := { dimmed := true }

/-- What the shell says first. -/
def banner (palette : Palette) : String :=
  palette.paint heading "Mini-PL" ++ " " ++
    palette.tint .brightCyan "v0.1.0 - interactive shell" ++ "\n" ++
    "  Type " ++ palette.tint .brightYellow ":help" ++ " for commands or " ++
    palette.tint .brightYellow ":quit" ++ " to exit\n\n"

/-- What the shell says last. -/
def farewell (palette : Palette) : String :=
  palette.tint .brightCyan "Goodbye!" ++ "\n"

/-- The prompt, for a new statement or for more of an open one. -/
def promptText (palette : Palette) (buffer : String) : String :=
  if buffer.isEmpty then palette.tint .brightGreen "minipl> "
  else palette.tint .brightBlue "   ...> "

/-- One line of the list of commands. -/
def helpLine (palette : Palette) (names meaning : String) : String :=
  "  " ++ palette.tint .brightYellow names ++ "  " ++ meaning ++ "\n"

/-- One line of the example session. -/
def exampleLine (palette : Palette) (line : String) : String :=
  "  " ++ palette.paint aside line ++ "\n"

/-- The list of commands with an example session. -/
def helpText (palette : Palette) : String :=
  "\n" ++ palette.paint heading "REPL Commands:" ++ "\n" ++
    helpLine palette ":help  :h" "Display this help message" ++
    helpLine palette ":quit  :q" "Exit the REPL" ++
    helpLine palette ":vars  :v" "Show declared variables" ++
    helpLine palette ":reset :r" "Forget all variables" ++
    helpLine palette ":ast   :a" "Toggle printing the syntax tree" ++
    "\n" ++ palette.paint heading "Examples:" ++ "\n" ++
    exampleLine palette "minipl> var x : int := 6 * 7;" ++
    exampleLine palette "minipl> for i in 1..3 do" ++
    exampleLine palette "   ...>     print i;" ++
    exampleLine palette "   ...> end for;" ++
    exampleLine palette "minipl> assert(x = 42);" ++ "\n"

/-- A value in the list of variables. -/
def valueText (palette : Palette) : Value → String
  | .int n => palette.tint .brightWhite (Text.Decimal.write n)
  | .string s => palette.tint .brightGreen ("\"" ++ s ++ "\"")
  | .bool b => palette.tint .brightMagenta (Value.boolWord b)

/-- One line of the list of variables. -/
def variableLine (palette : Palette) (binding : String × Value) : String :=
  "  " ++ palette.tint .brightYellow binding.1 ++ " : " ++
    palette.tint .brightBlue binding.2.ty.word ++ " = " ++ valueText palette binding.2 ++ "\n"

/-- The list of variables. -/
def variablesText (palette : Palette) (store : Store) : String :=
  if store.isEmpty then "  " ++ palette.paint aside "(no variables declared)" ++ "\n"
  else String.join (store.bindings.map (variableLine palette))

/-- What the shell answers to an unknown command. -/
def unknownCommandText (palette : Palette) (text : String) : String :=
  palette.tint .brightRed "Error:" ++ " Unknown command: " ++ palette.tint .brightYellow text ++
    ". Type " ++ palette.tint .brightYellow ":help" ++ " for available commands.\n"

/-- What the shell says when the variables are forgotten. -/
def resetText (palette : Palette) : String :=
  palette.tint .brightGreen "Environment reset" ++ "\n"

/-- What the shell says when outlines are switched on or off. -/
def outlineSwitchText (palette : Palette) (shown : Bool) : String :=
  palette.tint .brightGreen "Syntax tree echo" ++ " " ++
    palette.tint .brightYellow (if shown then "on" else "off") ++ "\n"

/-- What is written to the error stream about something without a place. -/
def errorText (palette : Palette) (message : String) : String :=
  palette.tint .brightRed "Error:" ++ " " ++ message ++ "\n"

end Shell

/-! ### Sessions -/

/-- A session: the machine that programs run on, the text of the error stream, whether outlines are
shown, the lines collected so far, and whether a program has taken the lines behind the prompt. -/
structure Shell where
  palette : Palette
  machine : Machine
  errors : String := ""
  showsOutline : Bool := false
  buffer : String := ""
  inputTaken : Bool := false

namespace Shell

/-- Writes a text of the shell's own. -/
def say (shell : Shell) (text : String) : Shell :=
  let output := { shell.machine.output with written := shell.machine.output.written ++ text }
  { shell with machine := { shell.machine with output } }

/-- A new session, which has said its first words. -/
def initial (palette : Palette) : Shell :=
  ({ palette, machine := .initial .empty } : Shell).say (banner palette)

/-- Writes a text to the error stream. -/
def complain (shell : Shell) (text : String) : Shell :=
  { shell with errors := shell.errors ++ text }

/-- Reports diagnostics about a text that was entered. -/
def reportAll (shell : Shell) (source : String) (diagnostics : List Diagnostic) : Shell :=
  shell.complain (String.join (diagnostics.map fun diagnostic =>
    (diagnostic.inSource none source).report shell.palette))

/-- Runs a program on the machine of the session, with the lines behind the prompt as its input as
long as no program has taken them, and tells how it ended. -/
def run (shell : Shell) (program : Program) (behind : List (Option String)) :
    Shell × Option Diagnostic :=
  let machine :=
    if shell.inputTaken then shell.machine else { shell.machine with input := ⟨[], behind⟩ }
  let conclude (after : Machine) : Shell :=
    { shell with machine := after, inputTaken := shell.inputTaken || after.input != machine.input }
  match program.exec machine with
  | .ok _ after => (conclude after, none)
  | .error fault after => (conclude after, some fault)

/-- Reads and runs a complete text; the types of the variables of the session are known to it. -/
def runText (shell : Shell) (text : String) (behind : List (Option String)) : Shell :=
  if (Text.trim text).isEmpty then shell
  else
    let result := parseText text shell.machine.store.types
    let shell := shell.reportAll text result.diagnostics
    let shell :=
      if shell.showsOutline then shell.say (shell.palette.paint aside result.program.outlineText)
      else shell
    let (shell, fault) := shell.run result.program behind
    let shell := shell.reportAll text fault.toList
    if result.program.prints then shell.say "\n" else shell

/-- Carries out a command, and tells whether the session goes on. -/
def obey (shell : Shell) : Command → Shell × Bool
  | .help => (shell.say (helpText shell.palette), true)
  | .quit => (shell.say (farewell shell.palette), false)
  | .vars => (shell.say (variablesText shell.palette shell.machine.store), true)
  | .reset =>
    let machine := { shell.machine with store := .empty }
    (({ shell with machine }).say (resetText shell.palette), true)
  | .outline =>
    let shell := { shell with showsOutline := !shell.showsOutline }
    (shell.say (outlineSwitchText shell.palette shell.showsOutline), true)
  | .unknown text => (shell.say (unknownCommandText shell.palette text), true)

/-- Takes in a line, with the lines behind it, and tells whether the session goes on. -/
def enter (shell : Shell) (line : String) (behind : List (Option String)) : Shell × Bool :=
  match Entry.ofLine shell.buffer line with
  | .command text => shell.obey (.ofText text)
  | .unfinished buffer => ({ shell with buffer }, true)
  | .complete text => (({ shell with buffer := "" }).runText text behind, true)

/-- Shows the prompt. -/
def prompt (shell : Shell) : Shell :=
  shell.say (promptText shell.palette shell.buffer)

/-- What the prompt finds: the end of the input, or a line, which is missing where it is not
UTF-8. -/
abbrev Found := Option (Option String)

/-- Takes in what the prompt finds, with the lines behind it, and tells whether the session goes
on. -/
def step (shell : Shell) (found : Found) (behind : List (Option String)) : Shell × Bool :=
  match found, shell.inputTaken with
  | some (some line), false => shell.enter (String.ofList (Text.dropLineEnd line.toList)) behind
  | some none, false => (shell.complain (errorText shell.palette Cause.notUtf8.message), false)
  | _, _ => (shell.say (farewell shell.palette), false)

/-- Goes on with a session to its end. -/
def interact (shell : Shell) : List (Option String) → Shell
  | [] => (shell.prompt.step none []).1
  | line :: behind =>
    match shell.prompt.step (some line) behind with
    | (next, true) => next.interact behind
    | (next, false) => next

/-- Whether entering a line runs a program that may read. -/
def awaitsInput (shell : Shell) (line : String) : Bool :=
  match Entry.ofLine shell.buffer line with
  | .complete text => (parseText text shell.machine.store.types).program.reads
  | _ => false

end Shell

end MiniPL
