import UntypedLambda.Text.Blank
import UntypedLambda.Text.Digit

/-!
# Reading integers

An integer is written as decimal digits of any script behind an optional sign, with white
space around it. Leading zeros are allowed, and so is a single underscore between two
digits. At most 4300 digits are read.

The white space around an integer is what is blank elsewhere, except for the four
separators U+001C to U+001F.
-/

namespace UntypedLambda.Text

/-- Whether a character may stand around an integer. -/
def isPadding (c : Char) : Bool := isBlank c && !(0x1C ≤ c.toNat && c.toNat ≤ 0x1F)

/-- A text without the white space around it. -/
def unpad (cs : List Char) : List Char :=
  ((cs.dropWhile isPadding).reverse.dropWhile isPadding).reverse

/-- The largest number of digits that is read. -/
def maxDigits : Nat := 4300

/-- The values of a run of digits in which an underscore may stand between two digits, and
`started` says whether a digit stands right before the run. -/
def digitRun? (started : Bool) : List Char → Option (List Nat)
  | [] => if started then some [] else none
  | c :: cs =>
      match digitValue? c with
      | some d => (digitRun? true cs).map (d :: ·)
      | none => if c = '_' ∧ started then digitRun? false cs else none

/-- The number that a text writes without a sign. -/
def readNat? (cs : List Char) : Option Nat := do
  let digits ← digitRun? false cs
  if digits.length ≤ maxDigits then some (ofDigits digits) else none

/-- The integer that a text writes, if it writes one. -/
def readInt? (s : String) : Option Int :=
  match unpad s.toList with
  | '-' :: cs => (readNat? cs).map fun n => -(n : Int)
  | '+' :: cs => (readNat? cs).map Int.ofNat
  | cs => (readNat? cs).map Int.ofNat

end UntypedLambda.Text
