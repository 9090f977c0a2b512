import UntypedLambda.Term.Fresh

/-!
# Renaming and substitution

`rename` replaces the free occurrences of one name by another and does not care whether an
abstraction of the term captures the new name; it is meant for new names that do not occur
in the term. `subst` replaces the free occurrences of a name by a term and never captures:
an abstraction whose parameter is free in the replacement is first given a fresh
parameter.

Substitution recurses into a renamed body, which is not a part of the term it started
from, so it recurses on the size of the term, which renaming leaves alone (`size_rename`).

## Main statements

* `size_rename` : renaming keeps the size of a term.
* `subst_var`, `subst_app`, `subst_abs` : substitution, one equation for each kind of term.
-/

namespace UntypedLambda.Term

/-- Replace the free occurrences of `old` by `new`, capturing or not. -/
def rename (old new : Name) : Term → Term
  | var x => if x = old then var new else var x
  | abs x b => if x = old then abs x b else abs x (b.rename old new)
  | app f a => app (f.rename old new) (a.rename old new)

@[simp] theorem size_rename (old new : Name) (t : Term) : (t.rename old new).size = t.size := by
  induction t with
  | var x => simp only [rename]; split <;> rfl
  | abs x b ih => simp only [rename]; split <;> simp [size, ih]
  | app f a ihf iha => simp [rename, size, ihf, iha]

/-- The parameter that an abstraction `λy.b` is given before a term with the free names
`free` is put in place of `x` inside it. -/
def freshParam (y : Name) (b : Term) (x : Name) (free : List Name) : Name :=
  fresh y (free ++ (abs y b).names ++ [x])

/-- Replace the free occurrences of `x` by `r`, renaming the abstractions on the way whose
parameter is free in `r`. -/
def subst (x : Name) (r : Term) : Term → Term
  | var y => if y = x then r else var y
  | abs y b =>
      if y = x then abs y b
      else if y ∈ r.freeNames then
        let z := freshParam y b x r.freeNames
        abs z (subst x r (b.rename y z))
      else abs y (subst x r b)
  | app f a => app (subst x r f) (subst x r a)
termination_by t => t.size
decreasing_by
  all_goals simp only [size, size_rename]
  all_goals omega

theorem subst_var (x : Name) (r : Term) (y : Name) :
    subst x r (var y) = if y = x then r else var y := by
  rw [subst]

theorem subst_app (x : Name) (r f a : Term) :
    subst x r (app f a) = app (subst x r f) (subst x r a) := by
  rw [subst]

theorem subst_abs (x : Name) (r : Term) (y : Name) (b : Term) :
    subst x r (abs y b) =
      if y = x then abs y b
      else if y ∈ r.freeNames then
        abs (freshParam y b x r.freeNames)
          (subst x r (b.rename y (freshParam y b x r.freeNames)))
      else abs y (subst x r b) := by
  rw [subst]

end UntypedLambda.Term
