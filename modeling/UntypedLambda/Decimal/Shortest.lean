/-!
# The shortest decimal of a binary number

A finite binary64 number stands for all the reals that are nearer to it than to its
neighbours, and for the midpoints as well if its significand is even. It is written with
the fewest digits that lie in this interval, and of the numbers with that many digits with
the one nearest to it. Seventeen digits always suffice.

All comparisons are made between natural numbers, by bringing `d · 10^g` and `a · 2^q` to
a common scale, so no rounding takes place anywhere.
-/

namespace UntypedLambda.Decimal

/-- A finite binary64 number without its sign, `significand · 2^exponent`. -/
structure Binary where
  /-- The significand, below `2^53`. -/
  significand : Nat
  exponent : Int
  /-- Whether the neighbour below is half as far away as the neighbour above. -/
  narrowBelow : Bool

/-- A decimal number, `digits · 10^exponent`. -/
structure Scaled where
  digits : Nat
  exponent : Int

/-- The finite number in the lower 63 bits of a binary64 pattern. -/
def Binary.ofBits (bits : UInt64) : Binary :=
  let fraction : Nat := bits.toNat % Nat.pow 2 52
  let biased : Nat := bits.toNat / Nat.pow 2 52 % Nat.pow 2 11
  if biased = 0 then ⟨fraction, -1074, false⟩
  else ⟨Nat.pow 2 52 + fraction, (biased : Int) - 1075, fraction = 0 && 1 < biased⟩

/-- Compare `d · 10^g` with `a · 2^q`. -/
def compareScaled (d : Nat) (g : Int) (a : Nat) (q : Int) : Ordering :=
  compare (d * Nat.pow 10 g.toNat * Nat.pow 2 (-q).toNat)
    (a * Nat.pow 2 q.toNat * Nat.pow 10 (-g).toNat)

/-- Whether `d · 10^g` lies in the interval that a number stands for. -/
def Binary.standsFor (x : Binary) (d : Nat) (g : Int) : Bool :=
  let low := 4 * x.significand - (if x.narrowBelow then 1 else 2)
  let high := 4 * x.significand + 2
  let ends := x.significand % 2 = 0
  (match compareScaled d g low (x.exponent - 2) with
    | .gt => true
    | .eq => ends
    | .lt => false) &&
  (match compareScaled d g high (x.exponent - 2) with
    | .lt => true
    | .eq => ends
    | .gt => false)

/-- The largest multiple of `10^g` that a number is not below, divided by `10^g`. -/
def Binary.floorAt (x : Binary) (g : Int) : Nat :=
  x.significand * Nat.pow 2 x.exponent.toNat * Nat.pow 10 (-g).toNat /
    (Nat.pow 10 g.toNat * Nat.pow 2 (-x.exponent).toNat)

/-- The number of digits before the point, counting down below zero for numbers below one
tenth; `fuel` bounds the search up from `guess`. -/
def Binary.scaleFrom (x : Binary) (guess : Int) : Nat → Int
  | 0 => guess
  | fuel + 1 =>
      match compareScaled 1 guess x.significand x.exponent with
      | .gt => guess
      | _ => x.scaleFrom (guess + 1) fuel

/-- The least `k` with the number below `10^k`. -/
def Binary.scale (x : Binary) : Int :=
  let log := (Nat.log2 x.significand : Int) + x.exponent
  x.scaleFrom (log * 30103 / 100000 - 1) 4

/-- Of two neighbours on the grid of `10^g`, the one that is nearer to the number; the even
one of two equally near. -/
def Binary.nearer (x : Binary) (g : Int) (d : Nat) : Nat :=
  match compareScaled (2 * d + 1) g (2 * x.significand) x.exponent with
  | .gt => d
  | .lt => d + 1
  | .eq => if d % 2 = 0 then d else d + 1

/-- The decimal of at most `n` digits that the number is written with, if there is one. -/
def Binary.withDigits? (x : Binary) (n : Nat) : Option Scaled :=
  let g := x.scale - n
  let d := x.floorAt g
  match x.standsFor d g, x.standsFor (d + 1) g with
  | true, true => some ⟨x.nearer g d, g⟩
  | true, false => some ⟨d, g⟩
  | false, true => some ⟨d + 1, g⟩
  | false, false => none

/-- Remove trailing zeros, at most `fuel` of them. -/
def Scaled.normalize : Nat → Scaled → Scaled
  | 0, d => d
  | fuel + 1, d =>
      if d.digits % 10 = 0 ∧ d.digits ≠ 0 then
        Scaled.normalize fuel ⟨d.digits / 10, d.exponent + 1⟩
      else d

/-- The decimal that a number is written with. -/
def Binary.shortest (x : Binary) : Scaled :=
  if x.significand = 0 then ⟨0, 0⟩
  else
    match (List.range 17).findSome? fun n => x.withDigits? (n + 1) with
    | some d => d.normalize 17
    | none =>
        ⟨x.significand * Nat.pow 2 x.exponent.toNat * Nat.pow 5 (-x.exponent).toNat,
          -((-x.exponent).toNat : Int)⟩

/-- A decimal in positional notation from `10^-4` up to `10^16`, with at least one digit
after the point, and otherwise in scientific notation with a signed exponent of at least
two digits. -/
def Scaled.text (d : Scaled) : String :=
  let ds := Nat.toDigits 10 d.digits
  let lead : Int := ds.length + d.exponent - 1
  let zeros (n : Nat) : List Char := List.replicate n '0'
  String.ofList <|
    if d.digits = 0 then "0.0".toList
    else if lead < -4 ∨ 16 ≤ lead then
      let fraction := match ds.drop 1 with
        | [] => []
        | rest => '.' :: rest
      let exponent := Nat.toDigits 10 lead.natAbs
      ds.take 1 ++ fraction ++ ['e', if lead < 0 then '-' else '+'] ++
        zeros (2 - exponent.length) ++ exponent
    else if lead < 0 then
      "0.".toList ++ zeros (lead.natAbs - 1) ++ ds
    else
      let whole := lead.toNat + 1
      if ds.length ≤ whole then ds ++ zeros (whole - ds.length) ++ ".0".toList
      else ds.take whole ++ '.' :: ds.drop whole

/-- The text of the binary64 number with the given bits. -/
def binaryText (bits : UInt64) : String :=
  let sign := if Nat.pow 2 63 ≤ bits.toNat then "-" else ""
  let low := bits.toNat % Nat.pow 2 63
  if low = 0x7FF * Nat.pow 2 52 then sign ++ "inf"
  else if 0x7FF * Nat.pow 2 52 < low then "nan"
  else sign ++ (Binary.ofBits bits).shortest.text

end UntypedLambda.Decimal
