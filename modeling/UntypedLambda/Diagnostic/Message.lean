import UntypedLambda.Diagnostic.Style
import UntypedLambda.Diagnostic.Template

/-!
# Messages

A message is a line of words in which the pieces of the user's text stand out. It is kept
as its pieces until it is shown, so that the style is chosen once, at the end. Only a message
that is made from a template has to know the style beforehand, since a template may cut or
quote a marked snippet; it is kept as it reads in plain text and as it is shown.
-/

namespace UntypedLambda.Diagnostic

/-- A piece of a message. -/
inductive Segment where
  | words (s : String)
  | snippet (s : String)
  /-- A text with snippets worked into it, in plain text and as a terminal shows it. -/
  | filled (plain terminal : String)
  deriving DecidableEq

/-- A message, as its pieces. -/
abbrev Message := List Segment

/-- A piece of a message in a style. -/
def Segment.render (style : Style) : Segment → String
  | .words s => s
  | .snippet s => style.bold s
  | .filled plain terminal =>
      match style with
      | .plain => plain
      | .terminal => terminal

/-- A message in a style. -/
def Message.render (style : Style) (m : Message) : String :=
  String.join (m.map (Segment.render style))

/-- A message as plain text. -/
def Message.text (m : Message) : String := m.render .plain

/-- Fill a template with snippets, and once more with the snippets as they are shown. -/
def Message.ofTemplate (style : Style) (template : String) (snippets : List String)
    (inspect : Inspection := Inspection.traits) : Except Template.Error Message := do
  let plain ← Template.fill template snippets inspect
  let shown ← Template.fill template (snippets.map style.bold) inspect
  return [.filled plain shown]

end UntypedLambda.Diagnostic
