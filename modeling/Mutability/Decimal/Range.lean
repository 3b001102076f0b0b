import Mutability.Decimal.Double

/-!
# The range of doubles

A number is beyond the range of doubles if it is rounded up to infinity. The least such number
(`bound`) lies half a step above the greatest finite double. All of this is about whole numbers and
powers of ten, so that it is decided exactly.
-/

namespace Mutability.Decimal

/-- The value of a list of digits in base ten. -/
def natOfDigits (ds : List Char) : Nat :=
  ds.foldl (fun n d => 10 * n + (d.toNat - 48)) 0

/-- The least number that is rounded up to infinity. -/
def bound : Nat := Nat.pow 2 1024 - Nat.pow 2 970

/-- Whether `significand * 10 ^ exponent` is rounded to a finite double. A power beyond `10 ^ 400`
is too large for every positive significand, and dividing by a power greater than the significand
is as good as dividing by any greater one. -/
def isFinite (significand : Nat) (exponent : Int) : Bool :=
  if 0 ≤ exponent then
    significand == 0 || (exponent ≤ 400 && significand * Nat.pow 10 exponent.toNat < bound)
  else significand < bound * Nat.pow 10 (min (-exponent).toNat (significand.log2 + 1))

/-- The whole number that is the double next to `n`: 53 binary digits are kept. -/
def nearest (n : Nat) : Nat :=
  let unit := Nat.pow 2 (n.log2 - 52)
  roundDiv n unit * unit

/-- Whether the product of two doubles is finite: those next to `significand` and to
`10 ^ exponent`. A power beyond `10 ^ 308` is no double. -/
def isProductFinite (significand : Nat) (exponent : Int) : Bool :=
  significand == 0 || exponent < 0 ||
    (exponent ≤ 308 && nearest significand * nearest (Nat.pow 10 exponent.toNat) < bound)

end Mutability.Decimal
