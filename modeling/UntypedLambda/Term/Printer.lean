import UntypedLambda.Term.Basic

/-!
# Written form of terms

The written form uses as few parentheses as the grammar needs: an application associates to
the left and the body of an abstraction reaches as far as it can, so parentheses stand
around an abstraction in function position and around anything but a name in argument
position.
-/

namespace UntypedLambda.Term

/-- A text in parentheses. -/
def parens (s : String) : String := "(" ++ s ++ ")"

/-- The written form of a term. -/
def text : Term → String
  | var x => x
  | abs x b => "λ" ++ x ++ "." ++ b.text
  | app f a =>
      (match f with
        | abs _ _ => parens f.text
        | _ => f.text) ++ " " ++
      (match a with
        | var _ => a.text
        | _ => parens a.text)

/-- The word for each kind of term. -/
def kind : Term → String
  | var _ => "Variable"
  | abs _ _ => "Abstraction"
  | app _ _ => "Application"

/-- A term by its kind and written form. -/
def described (t : Term) : String := t.kind ++ "('" ++ t.text ++ "')"

end UntypedLambda.Term
