import UntypedLambda.Diagnostic.Message
import UntypedLambda.Text.Slice

/-!
# Notices

A notice is what the user is told about an error or a warning: a message, and the text that
it is about with the span that is at fault. The span runs from `start` up to `stop` and is
shown with a caret under its first character and tildes under the others; a span that is
empty, or that ends before it starts, is shown as one character.
-/

namespace UntypedLambda.Diagnostic

/-- The layer that an error was found in. -/
inductive Category where
  | general
  | lexical
  | grammatical
  /-- The text is well formed, but cannot be acted on. -/
  | semantic
  deriving DecidableEq

/-- The name of the layer in front of a message. -/
def Category.label : Category → String
  | .general => "error"
  | .lexical => "lex error"
  | .grammatical => "parse error"
  | .semantic => "semantic error"

/-- What the user is told about an error or a warning. -/
structure Notice where
  category : Category
  message : Message
  subject : String
  start : Int
  /-- The position after the fault. -/
  stop : Int
  /-- Whether the subject is shown under the message. -/
  diagnosis : Bool := true
  /-- Whether the program is at fault and not the user. -/
  internal : Bool := false
  deriving DecidableEq

/-- A notice about the whole of its subject. -/
def Notice.whole (category : Category) (message : Message) (subject : String)
    (diagnosis : Bool := true) : Notice :=
  { category, message, subject, start := 0, stop := subject.length, diagnosis }

/-- The settings of a notice that is made from a template. -/
structure NoticeSettings where
  start : Int := 0
  /-- The position after the fault, where `-1` stands for the end of the subject. -/
  stop : Int := -1
  diagnosis : Bool := true
  internal : Bool := false

/-- Make a notice from a template and its snippets, the first of which is the subject. -/
def Notice.ofTemplate (style : Style) (category : Category) (template : String)
    (snippets : List String) (settings : NoticeSettings)
    (inspect : Inspection := Inspection.traits) : Except Template.Error Notice := do
  let message ← Message.ofTemplate style template snippets inspect
  match snippets with
  | [] => .error .noSnippets
  | subject :: _ =>
      .ok {
        category, message, subject
        start := settings.start
        stop := if settings.stop = -1 then subject.length else settings.stop
        diagnosis := settings.diagnosis
        internal := settings.internal }

namespace Notice

/-- The position after the span that is shown, which is never empty. -/
def shownStop (n : Notice) : Int := max n.stop (n.start + 1)

/-- The subject with the span at fault, and the marks under the span. -/
def diagnose (n : Notice) (style : Style) (color : Color) : String :=
  let cs := n.subject.toList
  let marks := "^" ++ String.ofList (List.replicate (n.shownStop - n.start - 1).toNat '~')
  "  " ++ String.ofList (Text.before n.start cs) ++
    style.paint color (String.ofList (Text.between n.start n.shownStop cs)) ++
    String.ofList (Text.after n.shownStop cs) ++ "\n" ++
    "  " ++ String.ofList (List.replicate n.start.toNat ' ') ++ style.paint color marks

/-- Whether the subject is shown under the message. -/
def showsSubject (n : Notice) : Bool := !n.internal && n.subject != "" && n.diagnosis

/-- The lines under the message. -/
def footer (n : Notice) (style : Style) (color : Color) : String :=
  if n.showsSubject then n.diagnose style color ++ "\n" else ""

end Notice

end UntypedLambda.Diagnostic
