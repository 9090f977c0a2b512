import UntypedLambda.Json
import UntypedLambda.Term.Basic

/-!
# Church numerals

The numeral for `n` is the term `λf.λx.f (f (… (f x)))` with `n` applications of `f`.
`Church.numeral` writes it with any two names and `Church.value?` reads it back. Where the
two names are the same, the inner abstraction binds every occurrence and the term encodes no
number, so it is written but not read.

## Main statement

* `value?_numeral` : a numeral with two different names is read as the number it was made
  from.
-/

namespace UntypedLambda.Church

/-- The term `f (f (… (f x)))` with `n` applications. -/
def iterate (f x : Name) : Nat → Term
  | 0 => .var x
  | n + 1 => .app (.var f) (iterate f x n)

/-- The numeral for `n` with the parameters `f` and `x`. -/
def numeral (n : Nat) (f x : Name) : Term :=
  .abs f (.abs x (iterate f x n))

/-- A value that is not a natural number. -/
structure NotNatural where
  value : Json

/-- The text of the error. -/
def NotNatural.message (e : NotNatural) : String :=
  "expected natural number, got '" ++ e.value.display ++ "'"

/-- The numeral for a value, which has to be a natural number without fraction and
exponent. -/
def numeralOf (value : Json) (f x : Name) : Except NotNatural Term :=
  match value with
  | .int (.ofNat n) => .ok (numeral n f x)
  | value => .error ⟨value⟩

/-- How often `f` is applied in `f (f (… (f x)))`, if a term has that form. -/
def count? (f x : Name) : Term → Option Nat
  | .var y => if y = x then some 0 else none
  | .app (.var g) a => if g = f then (count? f x a).map (· + 1) else none
  | _ => none

/-- The number that a term encodes, if it is a numeral with two different names. -/
def value? : Term → Option Nat
  | .abs f (.abs x b) => if f = x then none else count? f x b
  | _ => none

theorem count?_iterate (f x : Name) (n : Nat) : count? f x (iterate f x n) = some n := by
  induction n with
  | zero => simp [iterate, count?]
  | succ n ih => simp [iterate, count?, ih]

/-- A numeral with two different names is read as the number it was made from. -/
theorem value?_numeral {f x : Name} (n : Nat) (hfx : f ≠ x) :
    value? (numeral n f x) = some n := by
  simp [numeral, value?, hfx, count?_iterate]

end UntypedLambda.Church
