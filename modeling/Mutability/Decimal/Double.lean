/-!
# The value of a double

A finite double is a whole number times a power of two. The numbers that are rounded to it form an
interval around it, to which the ends belong if the whole number is even.
-/

namespace Mutability.Decimal

/-- The size of a finite double: `significand * 2 ^ exponent`. -/
structure Double where
  significand : Nat
  exponent : Int
deriving DecidableEq, Repr

namespace Double

/-- The size of the double with these bits, as if it were finite. -/
def ofBits (bits : UInt64) : Double :=
  let mantissa := bits.toNat % Nat.pow 2 52
  let e : Nat := bits.toNat / Nat.pow 2 52 % Nat.pow 2 11
  if e = 0 then ⟨mantissa, -1074⟩ else ⟨mantissa + Nat.pow 2 52, (e : Int) - 1075⟩

/-- The size of a double, as if it were finite. -/
def ofFloat (x : Float) : Double :=
  ofBits x.toBits

/-- The size as a fraction. -/
def fraction (d : Double) : Nat × Nat :=
  if 0 ≤ d.exponent then (d.significand * Nat.pow 2 d.exponent.toNat, 1)
  else (d.significand, Nat.pow 2 (-d.exponent).toNat)

end Double

/-- The whole number next to `num / den`; of two that are equally near, the even one. -/
def roundDiv (num den : Nat) : Nat :=
  let q := num / den
  let r := num % den
  if 2 * r < den then q
  else if den < 2 * r then q + 1
  else if q % 2 = 0 then q else q + 1

/-- A positive number with one place after the point, a half rounded to the even neighbour. -/
def onePlace (x : Float) : String :=
  let (num, den) := (Double.ofFloat x).fraction
  let n := roundDiv (10 * num) den
  (n / 10).repr ++ "." ++ (n % 10).repr

end Mutability.Decimal
