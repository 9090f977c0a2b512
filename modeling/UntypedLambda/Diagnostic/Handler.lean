import UntypedLambda.Diagnostic.Notice
import UntypedLambda.Table

/-!
# Handling failures

A handler knows which line of which source is being worked on, so that a report can say
where it comes from. Its trace holds one entry for each source that has been taken up, in
that order; an entry names a line while that line is worked on.

Work may end early for one of the reasons in `Interruption`. The handler turns a reason into
reports and decides how the work ends (`settle`): a notice to the user ends the program
with status one if the handler is fatal, and otherwise is reported and forgotten together
with the lines in the trace. A request to exit is passed on. Anything else is a fault of the
program: it is reported as such, and then ends the program or is passed on itself.
-/

namespace UntypedLambda.Diagnostic

/-- The line of a source that is being worked on, and its number. -/
structure Place where
  line : Option String
  number : Option Int
  deriving DecidableEq

/-- The place of a source in which no line is being worked on. -/
def Place.idle : Place := ⟨none, none⟩

/-- The number of a place as it is shown. -/
def Place.numberText (p : Place) : String :=
  match p.number with
  | some n => toString n
  | none => "None"

/-- The fault that a bad template is. -/
def Template.Error.fault (e : Template.Error) : Fault := ⟨e.kind, e.message⟩

/-- A reason for which work ends early. -/
inductive Interruption where
  | notice (n : Notice)
  /-- The user has stopped the work. -/
  | keyboard
  | tooDeep
  | exit (code : Option Int)
  /-- Something has failed that no rule foresees. -/
  | fault (f : Fault)
  deriving DecidableEq

/-- What is shown to the user about an error or a warning. -/
inductive Report where
  /-- A warning, with the line that it comes from, if one is being worked on. -/
  | warning (origin : Option (String × Place)) (notice : Notice)
  /-- An error, with the lines that were being worked on. -/
  | error (trace : List (String × Place)) (notice : Notice)
  deriving DecidableEq

/-- The two lines of a report about a line that was being worked on. -/
def traceEntry (path : String) (place : Place) (line : String) : String :=
  "  File '" ++ path ++ "', line " ++ place.numberText ++ ":\n    " ++ line ++ "\n"

/-- The entries of a trace that name a line which is not empty, as they are shown. -/
def traceEntries (trace : List (String × Place)) : List String :=
  trace.filterMap fun (path, place) =>
    match place.line with
    | none => none
    | some line => if line = "" then none else some (traceEntry path place line)

/-- A report in a style, with the end of its last line. -/
def Report.render (style : Style) : Report → String
  | .warning origin n =>
      let location := match origin with
        | none => ""
        | some (path, place) => path ++ ":" ++ place.numberText ++ ": "
      style.bold location ++ style.paint .magenta "warning: " ++ n.message.render style ++ "\n" ++
        n.footer style .magenta
  | .error trace n =>
      let entries := traceEntries trace
      (if 1 < entries.length then "Traceback:\n" else "") ++ String.join entries ++
        (if n.internal then style.paint .red "[internal] " else "") ++
        style.paint .red (n.category.label ++ ": ") ++ n.message.render style ++ "\n" ++
        n.footer style .red

/-- What knows where reports come from and how failures end. -/
structure Handler where
  style : Style
  fatal : Bool
  /-- The sources that have been taken up, in that order, with the line worked on. -/
  trace : Table String Place

/-- How a piece of work ends. -/
inductive Ending where
  /-- The work is done, or what ended it early has been dealt with. -/
  | completed
  | exited (code : Option Int)
  /-- What ended the work early is passed on. -/
  | escaped (reason : Interruption)
  deriving DecidableEq

namespace Handler

/-- A handler without sources. -/
def new (style : Style) (fatal : Bool) : Handler := ⟨style, fatal, ∅⟩

/-- Take up a source, or note that no line of it is being worked on. -/
def enterFile (h : Handler) (path : String) : Handler :=
  { h with trace := h.trace.insert path .idle }

/-- Note that a line is being worked on. -/
def enterLine (h : Handler) (path : String) (line : Option String) (number : Option Int) :
    Handler :=
  { h with trace := h.trace.insert path ⟨line, number⟩ }

/-- Note that a line has been worked on without an error. -/
def leaveLine (h : Handler) (path : String) : Handler := h.enterFile path

/-- Forget all lines, but not the sources. -/
def forgetLines (h : Handler) : Handler :=
  { h with trace := h.trace.mapValues fun _ => .idle }

/-- The line being worked on in the source that was taken up last, of those in which one
is. -/
def origin (h : Handler) : Option (String × Place) :=
  h.trace.entries.reverse.find? fun e => e.2.line.isSome

/-- The report of a warning. -/
def warn (h : Handler) (n : Notice) : Report := .warning h.origin n

/-- Report an error, and end the program or forget the lines that led to it. -/
def throw (h : Handler) (n : Notice) : Report × Ending × Handler :=
  (.error h.trace.entries n,
    if h.fatal then (.exited (some 1), h) else (.completed, h.forgetLines))

/-- The notice that the user has stopped the work. -/
def keyboardNotice : Notice := Notice.whole .general [.words "keyboard interrupt"] ""

/-- The notice that the work is nested too deeply. -/
def tooDeepNotice : Notice :=
  Notice.whole .general
    [.words "λ-term too deeply nested: maximum recursion depth exceeded"] ""

/-- The notice of a fault of the program. What is said about the fault is read as a template
once more. -/
def faultNotice (style : Style) (f : Fault) (inspect : Inspection := Inspection.traits) :
    Except Template.Error Notice :=
  Notice.ofTemplate style .general ("unknown error: '" ++ f.kind ++ ": " ++ f.message ++ "'") [""]
    { internal := true } inspect

/-- Deal with the reason for which a piece of work has ended early, if there is one. The
fields of what is said about a fault may ask for parts of values, which `inspect` knows. -/
def settle (h : Handler) (reason : Option Interruption)
    (inspect : Inspection := Inspection.traits) : Ending × List Report × Handler :=
  match reason with
  | none => (.completed, [], h)
  | some (.exit code) => (.exited code, [], h)
  | some (.notice n) => let (r, e, h') := h.throw n; (e, [r], h')
  | some .keyboard => let (r, e, h') := h.throw keyboardNotice; (e, [r], h')
  | some .tooDeep => let (r, e, h') := h.throw tooDeepNotice; (e, [r], h')
  | some (.fault f) =>
      match faultNotice h.style f inspect with
      | .error e => (.escaped (.fault e.fault), [], h)
      | .ok n =>
          match h.throw n with
          | (r, .completed, h') => (.escaped (.fault f), [r], h')
          | (r, e, h') => (e, [r], h')

end Handler

end UntypedLambda.Diagnostic
