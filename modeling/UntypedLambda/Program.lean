import UntypedLambda.CommandLine
import UntypedLambda.Shell
import UntypedLambda.Text.Lines

/-!
# The program

The program as a function: given its arguments, the files, the text that is typed in and a
style, it says what is written and how the program ends. A file is run to its end before any
of its results is written, so that warnings come first and a file with an error shows no
results.
-/

namespace UntypedLambda.Program

open Diagnostic Session

/-- What a run of the program writes, and how it ends. -/
structure Run where
  ending : Ending
  output : String := ""
  errors : String := ""

/-- Some reports in a style. -/
def renderAll (style : Style) (reports : List Report) : String :=
  String.join (reports.map (Report.render style))

/-- A session with a file, from its start to its end. -/
structure FileRun where
  ending : Ending
  /-- Whether all lines have run, or those up to a command to leave. -/
  succeeded : Bool
  reports : List Report
  handler : Handler
  /-- The session, if it could start. -/
  session : Option Session

/-- Start a session with a file, run it, and deal with what ends the run early. -/
def runSession (files : Files) (handler : Handler) (path : String) (interactive : Bool)
    (ceiling : Ceiling) : FileRun :=
  match Session.start files handler path interactive ceiling with
  | .error (e, h) =>
      let (ending, reports, h') := h.settle (some e.interruption)
      ⟨ending, false, reports, h', none⟩
  | .ok s =>
      let (failure, reports, s') := s.run
      let (ending, more, h) := s'.handler.settle (failure.map Session.Error.interruption)
      ⟨ending, failure.isNone, reports ++ more, h, some { s' with handler := h }⟩

/-- Run a file and write its results. Nothing but reports is written after an error. -/
def runFile (files : Files) (style : Style) (path : String) (ceiling : Ceiling) : Run :=
  let r := runSession files (Handler.new style true) path false ceiling
  let results := if r.succeeded then (r.session.map Session.results).getD [] else []
  { ending := r.ending
    output := renderAll style r.reports ++ String.join (results.map fun shown => shown ++ "\n") }

/-- The shell before the first line is typed in. -/
def newShell (style : Style) (ceiling : Ceiling) : Shell :=
  { session := Session.typedIn (Handler.new style true) ceiling }

/-- Run lines that are typed in. -/
def runShell (style : Style) (ceiling : Ceiling) (typed : List String) : Run :=
  let (output, ending) := (newShell style ceiling).loop typed
  { ending
    output := Shell.intro ++ String.join (output.map (Output.render style)) }

/-- Run the program. -/
def run (args : List String) (files : Files) (typed : String) (style : Style) : Run :=
  match CommandLine.read args with
  | .help => { ending := .exited (some 0), output := CommandLine.helpText }
  | .refuse e => { ending := .exited (some 2), errors := e.text }
  | .run options =>
      let style := if options.noColor then .plain else style
      match options.file with
      | some path => runFile files style path options.ceiling
      | none =>
          runShell style options.ceiling ((Text.lines typed.toList).map String.ofList)

end UntypedLambda.Program
