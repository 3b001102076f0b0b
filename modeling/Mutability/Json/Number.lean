import Mutability.Decimal.Range
import Mutability.Json.Basic

/-!
# Reading JSON numbers

A number without sign, fraction and exponent is a natural number. Any other one stands for a double
that is computed from its leading digits: as many of them as make a number of 64 bits (`Leading`),
times a power of ten. The number has no value if this product exceeds every double. So a number
with many digits may be out of range though a double lies next to it, and the other way round.
-/

namespace Mutability.Json

/-- The parts of a number: whether it is negative, the digits before and after the point, and the
exponent. -/
structure NumberParts where
  negative : Bool
  whole : List Char
  fraction : Option (List Char)
  exponent : Option (Bool × List Char)
deriving Repr

def spanDigits (cs : List Char) : List Char × List Char :=
  (cs.takeWhile Char.isDigit, cs.dropWhile Char.isDigit)

/-- Reads the digits before the point: no zero before other digits. -/
def readWhole : List Char → Option (List Char × List Char)
  | '0' :: rest => if (rest.head?.map Char.isDigit).getD false then none else some (['0'], rest)
  | cs =>
    match spanDigits cs with
    | ([], _) => none
    | parts => some parts

/-- Reads a point and the digits after it, if there is one. -/
def readFraction : List Char → Option (Option (List Char) × List Char)
  | '.' :: rest =>
    match spanDigits rest with
    | ([], _) => none
    | (ds, rest) => some (some ds, rest)
  | cs => some (none, cs)

/-- Reads the digits of an exponent after its sign. -/
def readExponentDigits (negative : Bool) (cs : List Char) :
    Option (Option (Bool × List Char) × List Char) :=
  match spanDigits cs with
  | ([], _) => none
  | (ds, rest) => some (some (negative, ds), rest)

def readExponent : List Char → Option (Option (Bool × List Char) × List Char)
  | c :: rest =>
    if c = 'e' ∨ c = 'E' then
      match rest with
      | '+' :: rest => readExponentDigits false rest
      | '-' :: rest => readExponentDigits true rest
      | rest => readExponentDigits false rest
    else some (none, c :: rest)
  | [] => some (none, [])

def readNumberParts (cs : List Char) : Option (NumberParts × List Char) := do
  let (negative, cs) := match cs with
    | '-' :: rest => (true, rest)
    | cs => (false, cs)
  let (whole, cs) ← readWhole cs
  let (fraction, cs) ← readFraction cs
  let (exponent, cs) ← readExponent cs
  return (⟨negative, whole, fraction, exponent⟩, cs)

/-- The leading digits of a number, as a number of 64 bits, and the power of ten by which to
multiply it. -/
structure Leading where
  significand : Nat
  exponent : Int
deriving DecidableEq, Repr

namespace Leading

def start : Leading := ⟨0, 0⟩

/-- The significand with one more digit, if it still has 64 bits. -/
def next? (l : Leading) (d : Char) : Option Nat :=
  let n := 10 * l.significand + (d.toNat - 48)
  if n < Nat.pow 2 64 then some n else none

/-- Takes digits before the point. From the first one that does not fit, each stands for a zero. -/
def takeWhole (l : Leading) : List Char → Leading
  | [] => l
  | d :: ds =>
    match l.next? d with
    | some n => takeWhole { l with significand := n } ds
    | none => { l with exponent := l.exponent + (ds.length + 1 : Nat) }

/-- Takes digits after the point, up to the first one that does not fit. -/
def takeFraction (l : Leading) : List Char → Leading
  | [] => l
  | d :: ds =>
    match l.next? d with
    | some n => takeFraction ⟨n, l.exponent - 1⟩ ds
    | none => l

end Leading

namespace NumberParts

def text (p : NumberParts) : String :=
  (if p.negative then "-" else "") ++ String.ofList p.whole ++
    (match p.fraction with
      | some ds => "." ++ String.ofList ds
      | none => "") ++
    match p.exponent with
      | some (negative, ds) => (if negative then "e-" else "e") ++ String.ofList ds
      | none => ""

def power (p : NumberParts) : Int :=
  match p.exponent with
  | some (true, ds) => -(Decimal.natOfDigits ds : Int)
  | some (false, ds) => Decimal.natOfDigits ds
  | none => 0

/-- The leading digits, with the power of ten that belongs to them. -/
def leading (p : NumberParts) : Leading :=
  let l := (Leading.start.takeWhole p.whole).takeFraction (p.fraction.getD [])
  { l with exponent := l.exponent + p.power }

/-- Whether a double stands for the number. -/
def isInRange (p : NumberParts) : Bool :=
  Decimal.isProductFinite p.leading.significand p.leading.exponent

def value (p : NumberParts) : Json :=
  if p.isInRange then
    if p.negative || p.fraction.isSome || p.exponent.isSome then num (.decimal p.text)
    else num (.nat (Decimal.natOfDigits p.whole))
  else skipped

end NumberParts

end Mutability.Json
