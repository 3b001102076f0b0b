import Mutability.Decimal.Double

/-!
# The shortest decimal of a double

Of the decimals that are rounded to a double, the one with the fewest digits is written; of those
with equally few digits, the nearest. For each number of digits only the two neighbours of the
double on that decimal grid come into question.
-/

namespace Mutability.Decimal

/-- The number `digits * 10 ^ exponent`. -/
structure Scientific where
  digits : Nat
  exponent : Int
deriving DecidableEq, Repr

/-- A double and the ends of the interval of numbers that are rounded to it, over a common unit. -/
structure Interval where
  value : Nat
  low : Nat
  high : Nat
  closed : Bool
deriving DecidableEq, Repr

/-- The interval around a double, in units of a quarter of its last place. The interval reaches
half as far down where the places below are half as large. -/
def Double.interval (d : Double) : Interval where
  value := 4 * d.significand
  low := if d.significand = Nat.pow 2 52 ∧ -1074 < d.exponent then 4 * d.significand - 1
    else 4 * d.significand - 2
  high := 4 * d.significand + 2
  closed := d.significand % 2 = 0

/-- Whether a number lies in the interval. -/
def Interval.contains (i : Interval) (n : Nat) : Bool :=
  if i.closed then i.low ≤ n && n ≤ i.high else i.low < n && n < i.high

/-- The interval in units that are smaller by a factor. -/
def Interval.scale (i : Interval) (k : Nat) : Interval :=
  ⟨i.value * k, i.low * k, i.high * k, i.closed⟩

/-- The neighbour of a double on the grid of multiples of `10 ^ p` that is rounded to it; of two
the nearer one, the even one if they are equally near. -/
def onGrid (d : Double) (p : Int) : Option Nat :=
  let twos := d.exponent - 2
  let i := d.interval.scale (Nat.pow 2 twos.toNat * Nat.pow 10 (-p).toNat)
  let unit := Nat.pow 2 (-twos).toNat * Nat.pow 10 p.toNat
  let below := i.value / unit
  let above := below + 1
  match i.contains (below * unit), i.contains (above * unit) with
  | true, false => some below
  | false, true => some above
  | true, true =>
    let toBelow := i.value - below * unit
    let toAbove := above * unit - i.value
    some (if toBelow < toAbove then below
      else if toAbove < toBelow then above
      else if below % 2 = 0 then below else above)
  | false, false => none

/-- The number of digits of the whole part, or minus the number of zeros after the point. -/
def magnitude (d : Double) : Int :=
  let (num, den) := d.fraction
  if den ≤ num then (num / den).repr.length
  else 1 - (List.range 400).countP fun k => num * Nat.pow 10 k < den

/-- The shortest decimal with at least `count` digits, trying `tries` grids. -/
def searchFrom (d : Double) (m : Int) (count : Nat) : Nat → Option Scientific
  | 0 => none
  | tries + 1 =>
    let p := m - count
    match onGrid d p with
    | some digits => some ⟨digits, p⟩
    | none => searchFrom d m (count + 1) tries

/-- The number without zeros at the end of its digits, dropping at most `fuel` of them. -/
def Scientific.normalize (s : Scientific) : Nat → Scientific
  | 0 => s
  | fuel + 1 =>
    if s.digits ≠ 0 ∧ s.digits % 10 = 0 then
      Scientific.normalize ⟨s.digits / 10, s.exponent + 1⟩ fuel
    else s

/-- The shortest decimal of a positive double. -/
def shortest (d : Double) : Scientific :=
  match searchFrom d (magnitude d) 1 17 with
  | some s => s.normalize 17
  | none => ⟨0, 0⟩

/-- Zeros. -/
def zeros (n : Nat) : String :=
  String.ofList (List.replicate n '0')

/-- A number in plain notation with a point, or with an exponent if it is below `10 ^ -5` or not
below `10 ^ 16`. -/
def Scientific.print (s : Scientific) : String :=
  let ds := s.digits.repr
  let whole : Int := ds.length + s.exponent
  if 0 ≤ s.exponent ∧ whole ≤ 16 then ds ++ zeros s.exponent.toNat ++ ".0"
  else if 0 < whole ∧ whole ≤ 16 then
    String.ofList (ds.toList.take whole.toNat) ++ "." ++ String.ofList (ds.toList.drop whole.toNat)
  else if -5 < whole ∧ whole ≤ 0 then "0." ++ zeros (-whole).toNat ++ ds
  else
    let e := (whole - 1).repr
    match ds.toList with
    | [d] => String.ofList [d] ++ "e" ++ e
    | d :: rest => String.ofList (d :: '.' :: rest) ++ "e" ++ e
    | [] => ds

/-- A nonnegative finite double as the shortest decimal that is rounded to it. -/
def print (x : Float) : String :=
  let d := Double.ofFloat x
  if d.significand = 0 then "0.0" else (shortest d).print

end Mutability.Decimal
