import UntypedLambda.Session.Basic

/-!
# The shell

The shell passes typed-in lines to a session. A line that leaves parentheses open is kept
until the lines after it close them (`pending`), and the prompt changes meanwhile. Three words
are commands of the shell when they stand alone: `help`, `exit`, and `EOF`, which is also
what the end of the input is read as. A line that starts with `?` is read as if it started
with `help`.
-/

namespace UntypedLambda

open Diagnostic Session

/-- What is written while a line is worked on. -/
inductive Output where
  | text (s : String)
  | report (r : Report)

/-- What is written, in a style. -/
def Output.render (style : Style) : Output → String
  | .text s => s
  | .report r => r.render style

/-- The prompt for a new line. -/
def Shell.newPrompt : String := "λ "

/-- The prompt for a line that goes on another. -/
def Shell.pendingPrompt : String := ". "

/-- A shell around a session. -/
structure Shell where
  session : Session
  /-- The lines so far of a line that goes on, if there is one. -/
  pending : Option String := none
  /-- What is shown before the next line is read. -/
  prompt : String := Shell.newPrompt
  /-- The number of lines that have been passed on or kept. -/
  lineNumber : Nat := 0

namespace Shell

/-- What a shell does with a line. -/
structure Turn where
  /-- Whether no more lines are read. -/
  stop : Bool
  output : List Output
  ending : Ending
  shell : Shell

/-- A turn that writes a text and leaves the session alone. -/
def say (sh : Shell) (stop : Bool) (text : String) : Turn :=
  ⟨stop, if text = "" then [] else [.text text], .completed, sh⟩

/-- Pass a line on to the session, or keep it if it leaves parentheses open. -/
def passOn (sh : Shell) (line : String) : Turn :=
  let text := continueLine sh.pending line
  let number := sh.lineNumber + 1
  if leavesOpen text then
    ⟨false, [], .completed,
      { sh with pending := some text, prompt := pendingPrompt, lineNumber := number }⟩
  else
    match sh.session.add text (some number) with
    | (.ok reply, s) =>
        let shown := reply.output.toList.map fun out => Output.text (out ++ "\n")
        ⟨s.done, reply.reports.map .report ++ shown, .completed, ⟨s, none, newPrompt, number⟩⟩
    | (.error e, s) =>
        let (ending, reports, h) := s.handler.settle (some e.interruption)
        ⟨s.done, reports.map .report, ending, ⟨{ s with handler := h }, none, newPrompt, number⟩⟩

/-- Whether a character may stand in a word that is a command of the shell. -/
def isWordChar (c : Char) : Bool := c.isAlphanum || c = '_'

/-- The word that a line starts with, which may be empty, and the text after it. -/
def splitWord (line : String) : String × String :=
  let cs := line.toList
  (String.ofList (cs.takeWhile isWordChar),
    String.ofList (Text.trim (cs.dropWhile isWordChar)))

/-- Read a command that has no argument as `alone`, and one that has as an ordinary line. -/
def orPassOn (sh : Shell) (word arg : String) (alone : Turn) : Turn :=
  if arg = "" then alone else sh.passOn (joinLines word arg)

/-- What is done with a line that starts with a word. -/
def dispatch (sh : Shell) (line : String) : Turn :=
  match splitWord line with
  | ("help", arg) => sh.orPassOn "help" arg (sh.say false (helpText ++ "\n"))
  | ("exit", arg) => sh.orPassOn "exit" arg (sh.say true "")
  | ("EOF", arg) => sh.orPassOn "EOF" arg (sh.say true "\n")
  | _ => sh.passOn line

/-- What is done with a line. -/
def accept (sh : Shell) (line : String) : Turn :=
  let text := trimmed line
  match text.toList with
  | [] => sh.say false ""
  | '?' :: rest => sh.dispatch (joinLines "help" (String.ofList rest))
  | '!' :: _ => sh.passOn text
  | _ => sh.dispatch text

/-- What is shown before the first line is read. -/
def intro : String :=
  "Lambda calculus interpreter :: Python backend\n" ++
    "Type ':h' or 'help' for more information.\n"

/-- Deal with what a shell has passed on when it stopped, if it was stopped by a failure. -/
def close (sh : Shell) : Ending → List Output × Ending
  | .escaped reason =>
      let (ending, reports, _) := sh.session.handler.settle (some reason)
      (reports.map .report, ending)
  | ending => ([], ending)

/-- Read lines until the shell stops. The end of the input is read as `EOF`. -/
def loop (sh : Shell) : List String → List Output × Ending
  | [] =>
      let turn := sh.accept "EOF"
      let (output, ending) := turn.shell.close turn.ending
      (.text sh.prompt :: turn.output ++ output, ending)
  | line :: rest =>
      let turn := sh.accept line
      let (output, ending) := match turn.ending, turn.stop with
        | .completed, false => loop turn.shell rest
        | ending, _ => turn.shell.close ending
      (.text sh.prompt :: turn.output ++ output, ending)

end Shell

end UntypedLambda
