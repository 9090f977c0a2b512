import UntypedLambda.Term.Substitution
import UntypedLambda.Term.Printer

/-!
# Renaming of bound names

Two terms are equal up to bound names if they differ only in the names of their
parameters. The comparison `alphaEqWithin` walks both terms at once and carries the pairs
of parameters that it has entered, innermost first: two occurrences match if the innermost
pair that mentions either of them mentions both, or if no pair mentions one of them and
they are the same name.

A single parameter is renamed by `alphaRename`, which refuses a new name that occurs in the
abstraction already, because `rename` could capture it.
-/

namespace UntypedLambda

/-- Whether the occurrence of `x` on the left matches that of `y` on the right, below the
pairs of parameters `pairs`, innermost first. -/
def sameBinding (x y : Name) : List (Name × Name) → Bool
  | [] => x = y
  | (p, q) :: outer => if p = x ∨ q = y then p = x ∧ q = y else sameBinding x y outer

namespace Term

/-- Whether two terms are equal up to bound names below the pairs of parameters `pairs`,
innermost first. -/
def alphaEqWithin : List (Name × Name) → Term → Term → Bool
  | pairs, var x, var y => sameBinding x y pairs
  | pairs, abs x b, abs y c => alphaEqWithin ((x, y) :: pairs) b c
  | pairs, app f a, app g b => alphaEqWithin pairs f g && alphaEqWithin pairs a b
  | _, _, _ => false

/-- Whether two terms are equal up to bound names. -/
def alphaEq (t u : Term) : Bool := alphaEqWithin [] t u

/-- Why a parameter cannot be renamed. -/
inductive RenameError where
  | notAbstraction (t : Term)
  /-- The term is an abstraction, but over another name than `old`. -/
  | otherParam (t : Term) (old : Name)
  /-- The new name occurs in the term. -/
  | occurs (t : Term) (new : Name)
  deriving DecidableEq

/-- The text of the error. -/
def RenameError.message : RenameError → String
  | .notAbstraction t => "'" ++ t.text ++ "' is not an abstraction"
  | .otherParam t old => "'" ++ t.text ++ "' does not bind '" ++ old ++ "'"
  | .occurs t new => "'" ++ new ++ "' already occurs in '" ++ t.text ++ "'"

/-- Rename the parameter `old` of an abstraction, and what it binds, to `new`. -/
def alphaRename (t : Term) (old new : Name) : Except RenameError Term :=
  match t with
  | abs x b =>
      if x ≠ old then .error (.otherParam t old)
      else if new ∈ t.names then .error (.occurs t new)
      else .ok (abs new (b.rename old new))
  | _ => .error (.notAbstraction t)

end Term

end UntypedLambda
