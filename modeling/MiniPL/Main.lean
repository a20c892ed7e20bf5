import MiniPL.CommandLine

/-!
# The program

Connects the command line to the streams, the files and the terminal.
-/

namespace MiniPL.Terminal

open Text (Palette)

/-- Colours are shown when they are forced, or on a terminal unless they are refused. -/
def choosePalette : IO Palette := do
  let forced := (← IO.getEnv "CLICOLOR_FORCE").any (· != "0")
  let refused := (← IO.getEnv "NO_COLOR").isSome
  let terminal ← (← IO.getStdout).isTty
  return if forced || (terminal && !refused) then .coloured else .plain

/-- The message about a file that cannot be read. -/
def messageOf : IO.Error → String
  | .noFileOrDirectory _ _ _ => "No such file or directory (os error 2)"
  | .inappropriateType _ _ _ => "Is a directory (os error 21)"
  | fault => toString fault

/-- The bytes of a file, or a message. -/
def bytesOf (file : String) : IO (Except String (List UInt8)) := do
  try
    return .ok (← IO.FS.readBinFile file).toList
  catch fault =>
    return .error (messageOf fault)

/-- The bytes left on a stream. -/
partial def readAll (stream : IO.FS.Stream) (read : ByteArray := .empty) : IO (List UInt8) := do
  let more ← stream.read 65536
  if more.isEmpty then return read.toList else readAll stream (read ++ more)

/-- The next line of a stream. -/
def readLine (stream : IO.FS.Stream) : IO Shell.Found := do
  try
    let line ← stream.getLine
    return if line.isEmpty then none else some (some line)
  catch _ =>
    return some none

/-- Writes out what a session has to say. -/
def flush (shell : Shell) : IO Shell := do
  (← IO.getStdout).putStr shell.machine.output.written
  (← IO.getStdout).flush
  (← IO.getStderr).putStr shell.errors
  return { shell with machine := { shell.machine with output := {} }, errors := "" }

/-- Goes on with a session until it ends. -/
partial def converse (shell : Shell) : IO Unit := do
  let stdin ← IO.getStdin
  let shell ← flush shell.prompt
  let found ← readLine stdin
  let behind ←
    match found with
    | some (some line) =>
      if shell.awaitsInput line then Input.linesOfBytes <$> readAll stdin else pure []
    | _ => pure []
  let (next, goesOn) := shell.step found behind
  let next ← flush next
  if goesOn then converse next

end MiniPL.Terminal

open MiniPL in
/-- Does what the arguments ask for. -/
def main (args : List String) : IO UInt32 := do
  let palette ← Terminal.choosePalette
  match Invocation.ofArgs? args with
  | none =>
    IO.eprintln "usage: minipl [FILE] [--run] [--emit tree|json] [--quiet]"
    return 2
  | some invocation =>
    match invocation.file with
    | none =>
      Terminal.converse (.initial palette)
      return 0
    | some file =>
      let bytes ← Terminal.bytesOf file
      let surroundings : Surroundings := { palette, files := fun _ => bytes, input := [] }
      let awaits := invocation.awaitsInput surroundings file
      let input ← if awaits then Terminal.readAll (← IO.getStdin) else pure []
      let reply := invocation.reply { surroundings with input }
      IO.eprint reply.errors
      IO.print reply.output
      return UInt32.ofNat reply.code
