/-!
# Styles

Messages are shown either as plain text or with the escape sequences of a terminal. In a
plain style every text stands for itself. In a terminal style a marked text is put between
the sequences that switch its marks on and the one that switches all marks off, even if it
is empty.
-/

namespace UntypedLambda.Diagnostic

/-- Whether marks are shown. -/
inductive Style where
  | plain
  | terminal
  deriving DecidableEq

/-- The colours that stand for the gravity of a message. -/
inductive Color where
  | red
  | magenta
  deriving DecidableEq

/-- The escape sequence of a terminal with a given code. -/
def escape (code : Nat) : String := "\x1b[" ++ toString code ++ "m"

/-- The code of a colour. -/
def Color.code : Color → Nat
  | .red => 31
  | .magenta => 35

/-- A text in bold. -/
def Style.bold (style : Style) (s : String) : String :=
  match style with
  | .plain => s
  | .terminal => escape 1 ++ s ++ escape 0

/-- A text in bold and in a colour. -/
def Style.paint (style : Style) (color : Color) (s : String) : String :=
  match style with
  | .plain => s
  | .terminal => escape 1 ++ escape color.code ++ s ++ escape 0

end UntypedLambda.Diagnostic
