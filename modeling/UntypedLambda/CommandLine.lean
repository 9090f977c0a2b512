import UntypedLambda.Reduction.Reducer
import UntypedLambda.Text.Integer
import UntypedLambda.Text.Quoted
import UntypedLambda.Text.Slice

/-!
# The command line

The program takes one file at most, and three flags: `-h` or `--help`, `--max-passes` with a
number, and `--no-color`. A long flag may be shortened as long as no other flag starts
alike, and may carry its value behind an equals sign. What is written together with a short
flag is read as the letters of more short flags, also behind an equals sign. Flags and the
file may come in any order. Everything after `--` is a file, however it looks; before that, a
negative number or a word with a space in it is a file even though it starts with a dash.

Arguments are first told apart one by one (`classify`) and then acted on from left to right
(`act`); help is given, and an error reported, when it is met.
-/

namespace UntypedLambda.CommandLine

/-- The flags. -/
inductive Flag where
  | help
  | maxPasses
  | noColor
  deriving DecidableEq

/-- The spellings of the flags. -/
def spellings : List (String × Flag) :=
  [("-h", .help), ("--help", .help), ("--max-passes", .maxPasses), ("--no-color", .noColor)]

/-- All spellings of one flag, as errors name it. -/
def Flag.label (f : Flag) : String :=
  "/".intercalate ((spellings.filter fun e => e.2 = f).map Prod.fst)

/-- A value that is written together with its flag. -/
inductive Attached where
  /-- Behind the equals sign of a long flag. -/
  | equals (value : String)
  /-- Behind the letter of a short flag, with or without an equals sign before it. -/
  | letters (value : List Char)
  deriving DecidableEq

/-- An argument of the command line. -/
inductive Argument where
  /-- A file, or the value of a flag. -/
  | word (s : String)
  /-- The mark after which there are no more flags. -/
  | separator
  /-- A flag, with the value written together with it, if there is one. -/
  | flag (f : Flag) (attached : Option Attached)
  | unknown (s : String)
  deriving DecidableEq

/-- Why the arguments cannot be acted on. -/
inductive Error where
  /-- A shortened flag may stand for several. -/
  | ambiguous (argument : String) (spellings : List String)
  | ignoredValue (f : Flag) (value : String)
  | missingPasses
  | badPasses (value : String)
  | nonPositivePasses (value : String)
  | unrecognized (arguments : List String)
  deriving DecidableEq

/-- The text of an error. -/
def Error.message : Error → String
  | .ambiguous argument names =>
      "ambiguous option: " ++ argument ++ " could match " ++ ", ".intercalate names
  | .ignoredValue f value =>
      "argument " ++ f.label ++ ": ignored explicit argument " ++ Text.quoted value
  | .missingPasses => "argument " ++ Flag.maxPasses.label ++ ": expected one argument"
  | .badPasses value =>
      "argument " ++ Flag.maxPasses.label ++ ": invalid positive_int value: " ++
        Text.quoted value
  | .nonPositivePasses value =>
      "argument " ++ Flag.maxPasses.label ++ ": expected a positive number of passes, got '" ++
        value ++ "'"
  | .unrecognized arguments => "unrecognized arguments: " ++ " ".intercalate arguments

/-- Whether a text is a non-empty run of decimal digits. -/
def isDigits (cs : List Char) : Bool :=
  !cs.isEmpty && cs.all fun c => (Text.digitValue? c).isSome

/-- Whether a text is a negative number: digits, with or without a fraction, behind a dash.
A line feed may follow them. -/
def isNegative (cs : List Char) : Bool :=
  let body := if cs.getLast? = some '\n' then cs.dropLast else cs
  match body with
  | '-' :: number =>
      isDigits number ||
        match Text.splitAt? ['.'] number with
        | none => false
        | some (whole, fraction) => (whole.isEmpty || isDigits whole) && isDigits fraction
  | _ => false

/-- A flag as it is written, and the value behind its equals sign, if there is one. -/
def splitValue (s : String) : String × Option String :=
  match Text.splitAt? ['='] s.toList with
  | none => (s, none)
  | some (left, right) => (String.ofList left, some (String.ofList right))

/-- A value behind an equals sign, after the spelling of its flag. -/
def Attached.ofValue (spelling value : String) : Attached :=
  if spelling.length = 2 then .letters value.toList else .equals value

/-- The flags that an argument with a dash in front, which is not spelled out, may stand
for. -/
def candidates (s : String) : List (String × Argument) :=
  match s.toList with
  | '-' :: '-' :: _ =>
      let (short, value) := splitValue s
      (spellings.filter fun e => short.toList.isPrefixOf e.1.toList).map fun e =>
        (e.1, .flag e.2 (value.map .equals))
  | '-' :: c :: rest =>
      (spellings.filter fun e => e.1 = String.ofList ['-', c]).map fun e =>
        (e.1, .flag e.2 (some (.letters rest)))
  | _ => []

/-- The flag that an argument spells out, if it does. -/
def spelledOut? (s : String) : Option Argument :=
  match spellings.lookup s, splitValue s with
  | some f, _ => some (.flag f none)
  | none, (_, none) => none
  | none, (left, some value) =>
      (spellings.lookup left).map fun f => .flag f (some (.ofValue left value))

/-- What an argument before `--` is. -/
def classify (s : String) : Except Error Argument :=
  if s.toList.head? ≠ some '-' ∨ s = "-" then .ok (.word s)
  else match spelledOut? s with
    | some argument => .ok argument
    | none =>
        match candidates s with
        | [(_, argument)] => .ok argument
        | [] => .ok (if isNegative s.toList || s.toList.contains ' ' then .word s else .unknown s)
        | several => .error (.ambiguous s (several.map Prod.fst))

/-- What the arguments are. -/
def classifyAll : List String → Except Error (List Argument)
  | [] => .ok []
  | s :: rest =>
      if s = "--" then .ok (.separator :: rest.map .word)
      else do
        let argument ← classify s
        return argument :: (← classifyAll rest)

/-- What the program is to do: run a file, or lines that are typed in. -/
structure Options where
  file : Option String := none
  ceiling : Ceiling := .usual
  noColor : Bool := false

/-- What the arguments ask for. -/
inductive Request where
  | run (options : Options)
  | help
  | refuse (error : Error)

/-- The ceiling that a value stands for. The mark `--` stands for no value. -/
def readCeiling (value : String) : Except Error Ceiling :=
  if value = "--" then .ok .missing
  else match Text.readInt? value with
    | none => .error (.badPasses value)
    | some n => if n ≤ 0 then .error (.nonPositivePasses value) else .ok (.passes n)

/-- The letters that are refused behind a short flag without a value, if some are. Letters
that are flags themselves are passed over. -/
def refusedLetters? : List Char → Option (List Char)
  | [] => none
  | c :: rest =>
      if (spellings.lookup (String.ofList ['-', c])).isSome then refusedLetters? rest
      else some (c :: rest)

/-- The value that a flag without a value is refused for, if it is. -/
def refusedValue? : Option Attached → Option String
  | none => none
  | some (.equals value) => some value
  | some (.letters []) => some ""
  | some (.letters cs) => (refusedLetters? cs).map String.ofList

/-- What has been acted on: the options, whether the place of the file is taken, and the
arguments that are left over. -/
structure Progress where
  options : Options := {}
  fileTaken : Bool := false
  leftOver : List String := []

/-- Note the ceiling. -/
def Progress.setCeiling (p : Progress) (ceiling : Ceiling) : Progress :=
  { p with options := { p.options with ceiling } }

/-- Take a word as the file, or leave it over if there is one. -/
def Progress.takeFile (p : Progress) (s : String) : Progress :=
  if p.fileTaken then { p with leftOver := p.leftOver ++ [s] }
  else { p with options := { p.options with file := some s }, fileTaken := true }

/-- Act on arguments from left to right. The mark `--` goes with the file before or after
it, and is left over if there is no place for a file. -/
def act (p : Progress) : List Argument → Request
  | [] => if p.leftOver = [] then .run p.options else .refuse (.unrecognized p.leftOver)
  | .word s :: .separator :: rest =>
      if p.fileTaken then act { p with leftOver := p.leftOver ++ [s, "--"] } rest
      else act (p.takeFile s) rest
  | .word s :: rest => act (p.takeFile s) rest
  | .separator :: .word s :: rest =>
      if p.fileTaken then act { p with leftOver := p.leftOver ++ ["--", s] } rest
      else act (p.takeFile s) rest
  | .separator :: rest =>
      act (if p.fileTaken then { p with leftOver := p.leftOver ++ ["--"] } else p) rest
  | .unknown s :: rest => act { p with leftOver := p.leftOver ++ [s] } rest
  | .flag .maxPasses (some (.equals value)) :: rest =>
      match readCeiling value with
      | .error e => .refuse e
      | .ok ceiling => act (p.setCeiling ceiling) rest
  | .flag .maxPasses _ :: .word value :: rest =>
      match readCeiling value with
      | .error e => .refuse e
      | .ok ceiling => act (p.setCeiling ceiling) rest
  | .flag .maxPasses _ :: _ => .refuse .missingPasses
  | .flag .noColor attached :: rest =>
      match refusedValue? attached with
      | some value => .refuse (.ignoredValue .noColor value)
      | none => act { p with options := { p.options with noColor := true } } rest
  | .flag .help attached :: _ =>
      match refusedValue? attached with
      | some value => .refuse (.ignoredValue .help value)
      | none => .help

/-- What some arguments ask for. -/
def read (args : List String) : Request :=
  match classifyAll args with
  | .error e => .refuse e
  | .ok arguments => act {} arguments

/-- The summary of the arguments. -/
def usage : String := "usage: lc [-h] [--max-passes MAX_PASSES] [--no-color] [file]\n"

/-- What is shown for help. -/
def helpText : String :=
  usage ++
  "\n" ++
  "Untyped lambda calculus interpreter (normal order).\n" ++
  "\n" ++
  "positional arguments:\n" ++
  "  file                  file to interpret and run (if empty, goes to command-\n" ++
  "                        line mode)\n" ++
  "\n" ++
  "options:\n" ++
  "  -h, --help            show this help message and exit\n" ++
  "  --max-passes MAX_PASSES\n" ++
  "                        beta reductions to try before giving up on finding a\n" ++
  "                        normal form (default: 100)\n" ++
  "  --no-color            print errors and warnings without colors\n"

/-- What is shown for an error. -/
def Error.text (e : Error) : String := usage ++ "lc: error: " ++ e.message ++ "\n"

end UntypedLambda.CommandLine
