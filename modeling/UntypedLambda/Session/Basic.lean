import UntypedLambda.Church
import UntypedLambda.Diagnostic.Handler
import UntypedLambda.Grammar.Diagnosis
import UntypedLambda.Reduction.Reducer
import UntypedLambda.Session.Source
import UntypedLambda.Term.Outline

/-!
# Sessions

A session holds named definitions and runs one line after another against them. A line is a
definition, a term to evaluate, or a command behind a colon.

An operation that can fail returns either an error or its result with the session after it,
so a failure leaves definitions, results and the end of the session as they were. Only
`add`, which notes the line for the reports before running it, changes the session when it
fails, and then only by that note.
-/

namespace UntypedLambda

open Diagnostic

/-- The name of the source that is typed in. -/
def shellPath : String := "<in>"

/-- Named definitions, and what is done with lines. -/
structure Session where
  path : String
  /-- Whether the lines are typed in. Then definitions are echoed. -/
  interactive : Bool
  ceiling : Ceiling
  /-- What is told where reports come from. -/
  handler : Handler
  environment : Environment := ∅
  /-- The lines of the source file, if there is one. -/
  lines : List Session.Line := []
  /-- What running the source file has shown. -/
  results : List String := []
  done : Bool := false

namespace Session

/-- Why a line cannot be acted on. -/
inductive Error where
  | grammar (source : String) (error : Grammar.Error)
  | noEquals (statement : String)
  /-- There is nothing before the equals sign of a definition. -/
  | noName (statement : String)
  /-- What stands before the equals sign of a definition is not a name. -/
  | badName (statement : String)
  /-- A definition refers to itself, directly or through other definitions. -/
  | recursive (statement : String)
  | unknownCommand (line word : String)
  /-- A term is to be evaluated, but the session lacks a ceiling. -/
  | noCeiling
  deriving DecidableEq

/-- The position of the equals sign in a definition. -/
def equalsPosition (statement : String) : Nat := (splitAtChar '=' statement).1.length

/-- The notice of a definition that is refused for what stands before its equals sign. -/
def leftSideNotice (statement before after : String) : Notice :=
  { category := .semantic
    message := [.words before, .snippet statement, .words after]
    subject := statement
    start := 0
    stop := equalsPosition statement }

/-- What the user is told about an error, unless the program is at fault. -/
def Error.notice? : Error → Option Notice
  | .grammar source e => e.notice source
  | .noEquals statement =>
      Notice.whole .semantic [.words "'", .snippet statement, .words "' has no '='"] statement
        false
  | .noName statement => leftSideNotice statement "binding name in '" "' cannot be empty"
  | .badName statement => leftSideNotice statement "l-value of '" "' is not a valid variable"
  | .recursive statement =>
      leftSideNotice statement "recursive definitions not supported: '" "' refers to itself"
  | .unknownCommand line word =>
      some
        { category := .semantic
          message := [.words "unknown command '", .snippet line, .words "'"]
          subject := line
          start := 0
          stop := word.length + 1 }
  | .noCeiling => none

/-- The fault that a session without a ceiling is. -/
def noCeilingFault : Fault := ⟨"TypeError", "'list' object cannot be interpreted as an integer"⟩

/-- The reason for which work ends early when a line cannot be acted on. -/
def Error.interruption (e : Error) : Interruption :=
  match e.notice? with
  | some n => .notice n
  | none => .fault noCeilingFault

/-- What running a line shows: a text, if there is one, after some reports. -/
structure Reply where
  output : Option String := none
  reports : List Report := []

/-- The term that a text writes. -/
def parse (expr : String) : Except Error Term := (Grammar.parse expr).mapError (.grammar expr)

/-- The term that a text writes, with its definitions unfolded. -/
def expand (s : Session) (expr : String) : Except Error Term :=
  (parse expr).map s.environment.expandTop

/-- The term that a text writes, with its definitions unfolded, after one contraction if
there is a redex. -/
def step (s : Session) (expr : String) : Except Error Term :=
  (s.expand expr).map fun t => t.stepTop.getD t

/-- The warning that a reduction has met its ceiling. -/
def ceilingNotice (expr : String) (passes : Nat) : Notice :=
  Notice.whole .general
    [.words "'", .snippet expr,
      .words "' might not have a beta normal form: stopped after ", .snippet (toString passes),
      .words " passes"]
    expr false

/-- The term that a text writes, reduced, and a warning if the ceiling was met. -/
def evaluate (s : Session) (expr : String) : Except Error (Term × List Report) := do
  let t ← s.expand expr
  match s.ceiling.reduce? t with
  | none => throw .noCeiling
  | some r =>
      return (r.term, if r.normal then [] else [s.handler.warn (ceilingNotice expr r.passes)])

/-- What a term is shown as where numbers are wanted. -/
def numberText (t : Term) : String :=
  match Church.value? t with
  | some n => toString n
  | none => t.text

/-- The term that a text writes, reduced and shown as a number if it encodes one. -/
def number (s : Session) (expr : String) : Except Error (String × List Report) :=
  (s.evaluate expr).map fun r => (numberText r.1, r.2)

/-- Whether a text is a single name. -/
def isSingleName (tokens : List Grammar.Token) : Bool :=
  match tokens with
  | [token] => token.kind = .name
  | _ => false

/-- Take up a definition `name = term`, unless it is not one or would refer to itself. -/
def bind (s : Session) (statement : String) : Except Error (Term × Session) := do
  if !statement.toList.contains '=' then throw (.noEquals statement)
  let (left, right) := splitAtChar '=' statement
  let name := trimmed left
  if name = "" then throw (.noName statement)
  let tokens ← (Grammar.tokenize name).mapError fun e => .grammar name (.illegal e)
  if !isSingleName tokens then throw (.badName statement)
  let t ← parse (trimmed right)
  if s.environment.reaches name t then throw (.recursive statement)
  return (t, { s with environment := s.environment.insert name t })

/-- Forget all definitions. -/
def clear (s : Session) : Session := { s with environment := ∅ }

/-- Take up a definition, and show it if the lines are typed in. -/
def define (s : Session) (statement : String) : Except Error (Option String × Session) :=
  (s.bind statement).map fun (t, s') =>
    (if s.interactive then some (trimmed (splitAtChar '=' statement).1 ++ " = " ++ t.text)
      else none, s')

/-- A short introduction. -/
def helpText : String :=
  "Welcome to the lambdacalc interpreter!\n\n" ++
  "This interpreter supports pure lambda calculus as imagined by Church, reduced in \n" ++
  "normal order, as well as named definitions.\n\n" ++
  "Try it out by typing 'I = λx.x'. This will bind the λ-term 'λx.x' to the name \n" ++
  "'I'. Next, try typing 'I y'. This will apply 'I' to 'y', giving 'y' as the \n" ++
  "result. Multiple parameters can be written at once: 'K = \\x y -> x'.\n\n" ++
  "Commands: :let, :e(val), :b(eta), :x (expand), :p(arse), :n(um), :clr (clear), \n" ++
  ":h(elp), :q(uit)."

/-- What a line asks for. -/
inductive Command where
  | quit
  | help
  | clear
  | define (statement : String)
  | evaluate (expr : String)
  | step (expr : String)
  | expand (expr : String)
  | outline (expr : String)
  | number (expr : String)
  | unknown (line word : String)
  deriving DecidableEq

/-- What a word behind a colon asks for, with the text after it. -/
def Command.ofWord (line word arg : String) : Command :=
  match word with
  | "q" | "quit" => .quit
  | "h" | "help" => .help
  | "clr" | "clear" => .clear
  | "let" => .define arg
  | "e" | "eval" => .evaluate arg
  | "b" | "beta" => .step arg
  | "x" | "expand" => .expand arg
  | "p" | "parse" => .outline arg
  | "n" | "num" => .number arg
  | _ => .unknown line word

/-- What a line without comment and surrounding blanks asks for. -/
def Command.ofLine (line : String) : Command :=
  match line.toList with
  | ':' :: rest =>
      let (word, arg) := splitAtChar ' ' (String.ofList (Text.trim rest))
      .ofWord line word (trimmed arg)
  | _ => if isDefinition line then .define line else .evaluate line

/-- Carry out a command. -/
def perform (s : Session) : Command → Except Error (Reply × Session)
  | .quit => .ok ({}, { s with done := true })
  | .help => .ok ({ output := some helpText }, s)
  | .clear => .ok ({}, s.clear)
  | .define statement => (s.define statement).map fun (shown, s') => ({ output := shown }, s')
  | .evaluate expr =>
      (s.evaluate expr).map fun (t, reports) => ({ output := some t.text, reports }, s)
  | .step expr => (s.step expr).map fun t => ({ output := some t.text }, s)
  | .expand expr => (s.expand expr).map fun t => ({ output := some t.text }, s)
  | .outline expr => (parse expr).map fun t => ({ output := some t.outline.pretty }, s)
  | .number expr =>
      (s.number expr).map fun (shown, reports) => ({ output := some shown, reports }, s)
  | .unknown line word => .error (.unknownCommand line word)

/-- Run a line. A line of blanks and comments shows nothing. -/
def execute (s : Session) (line : String) : Except Error (Reply × Session) :=
  let text := trimmed (clean line)
  if text = "" then .ok ({}, s) else s.perform (.ofLine text)

/-- Run a line after noting it for the reports. The note is taken back if the line runs. -/
def add (s : Session) (line : String) (number : Option Int) : Except Error Reply × Session :=
  let noted := { s with handler := s.handler.enterLine s.path (some line) number }
  match noted.execute line with
  | .error e => (.error e, noted)
  | .ok (reply, s') => (.ok reply, { s' with handler := s'.handler.leaveLine s'.path })

/-- Run lines up to the first error or the end of the session, and collect what they
show. -/
def runLines : List Line → Session → Option Error × List Report × Session
  | [], s => (none, [], s)
  | line :: rest, s =>
      match s.add line.text (some line.number) with
      | (.error e, s') => (some e, [], s')
      | (.ok reply, s') =>
          let shown := { s' with results := s'.results ++ reply.output.toList }
          if shown.done then (none, reply.reports, shown)
          else
            let (failure, reports, last) := runLines rest shown
            (failure, reply.reports ++ reports, last)

/-- Run the lines of the source file. -/
def run (s : Session) : Option Error × List Report × Session := runLines s.lines s

/-- Why a session cannot start. -/
inductive StartError where
  /-- The path is the name of the source that is typed in. -/
  | reserved
  | read (path : String) (error : ReadError)

/-- The reason for which work ends early when a session cannot start. -/
def StartError.interruption : StartError → Interruption
  | .reserved =>
      .notice (Notice.whole .semantic [.words "'<in>' is a reserved filename"] "" false)
  | .read path .unreadable =>
      .notice (Notice.whole .semantic
        [.words "'", .snippet path, .words "' could not be opened"] path false)
  | .read _ .badPath => .fault ⟨"ValueError", "embedded null byte"⟩
  | .read _ (.malformed e) => .fault ⟨"UnicodeDecodeError", e.message⟩

/-- The handler of a session that takes up a source. Typed-in lines never end the
program. -/
def takeUp (handler : Handler) (path : String) (interactive : Bool) : Handler :=
  let entered := handler.enterFile path
  if interactive then { entered with fatal := false } else entered

/-- A session for lines that are typed in. -/
def typedIn (handler : Handler) (ceiling : Ceiling) : Session :=
  { path := shellPath, interactive := true, ceiling
    handler := takeUp handler shellPath true }

/-- Start a session with a source. A session that cannot start still leaves its source in
the trace of the handler. -/
def start (files : Files) (handler : Handler) (path : String) (interactive : Bool)
    (ceiling : Ceiling) : Except (StartError × Handler) Session :=
  let h := takeUp handler path interactive
  if path = shellPath then
    if interactive then .ok (typedIn handler ceiling) else .error (.reserved, h)
  else match readLines files path with
    | .error e => .error (.read path e, h)
    | .ok lines => .ok { path, interactive, ceiling, handler := h, lines }

/-- A session, as a line of text. -/
def described (s : Session) : String :=
  "Session(path='" ++ s.path ++ "', environment=" ++ Text.quotedList s.environment.keys ++ ")"

end Session

end UntypedLambda
