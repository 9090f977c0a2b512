import UntypedLambda.Program

/-!
# The executable

Reads the arguments, the file and the typed-in lines, and writes what the program says.
Texts are styled for a terminal unless the environment asks for plain text.
-/

open UntypedLambda Diagnostic

/-- The bytes of a file, if it can be read. -/
def readBytes (path : String) : IO (Option (List UInt8)) := do
  try
    let bytes ← IO.FS.readBinFile path
    return some bytes.toList
  catch _ => return none

/-- The style that the environment asks for. -/
def environmentStyle : IO Style := do
  if (← IO.getEnv "NO_COLOR").isSome then return .plain
  if (← IO.getEnv "FORCE_COLOR").isSome then return .terminal
  let stdout ← IO.getStdout
  return if ← stdout.isTty then .terminal else .plain

/-- The exit status of a run. -/
def exitStatus : Ending → UInt32
  | .completed => 0
  | .exited code => UInt32.ofNat ((code.getD 0) % 256).toNat
  | .escaped _ => 1

/-- Write the output and the errors of a run. -/
def writeRun (r : Program.Run) : IO UInt32 := do
  IO.print r.output
  IO.eprint r.errors
  return exitStatus r.ending

/-- The lines that are typed in up to the next line feed; none at the end of the input. -/
def readTypedLines : IO (List String) := do
  let chunk ← (← IO.getStdin).getLine
  return (Text.lines chunk.toList).map String.ofList

/-- Read lines until the shell stops, those in `ready` first. -/
partial def converse (style : Style) (sh : Shell) (ready : List String) : IO UInt32 := do
  IO.print sh.prompt
  (← IO.getStdout).flush
  let lines ← if ready.isEmpty then readTypedLines else pure ready
  let turn := sh.accept (lines.head?.getD "EOF")
  for out in turn.output do
    IO.print (out.render style)
  match turn.ending, turn.stop with
  | .completed, false => converse style turn.shell lines.tail
  | ending, _ =>
      let (output, ending) := turn.shell.close ending
      for out in output do
        IO.print (out.render style)
      return exitStatus ending

/-- Run the program on the given arguments. -/
def main (args : List String) : IO UInt32 := do
  let style ← environmentStyle
  match CommandLine.read args with
  | .run options =>
      let style := if options.noColor then .plain else style
      match options.file with
      | some path =>
          let bytes ← readBytes path
          let files := fun p => if p = path then bytes else none
          writeRun (Program.runFile files style path options.ceiling)
      | none =>
          IO.print Shell.intro
          converse style (Program.newShell style options.ceiling) []
  | _ => writeRun (Program.run args (fun _ => none) "" style)
