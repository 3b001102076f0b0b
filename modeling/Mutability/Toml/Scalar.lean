import Mutability.Decimal.Range

/-!
# Numbers and dates in TOML

Numbers and dates are recognized as whole words: what may stand in them never stands right after
them. A number with a fraction or an exponent must not be rounded up to infinity, but it may be
rounded down to minus infinity.
-/

namespace Mutability.Toml

/-- The value of a list of digits in some base, where `a` to `f` stand for ten to fifteen. -/
def digitsValue (base : Nat) (ds : List Char) : Nat :=
  ds.foldl (fun n d =>
    base * n + (if d.isDigit then d.toNat - 48 else (d.toLower.toNat - 87))) 0

/-- Whether the word consists of digits, with single underscores only between digits. -/
def isSpaced (isDigit : Char → Bool) (cs : List Char) : Bool :=
  (cs.head?.map isDigit).getD false && (cs.getLast?.map isDigit).getD false &&
    cs.all (fun c => isDigit c || c == '_') &&
    (cs.zip cs.tail).all fun p => !(p.1 == '_' && p.2 == '_')

/-- The word without its underscores. -/
def unspaced (cs : List Char) : List Char :=
  cs.filter (· != '_')

/-- The word without a sign before it, and whether the sign is a minus. -/
def splitSign : List Char → Bool × List Char
  | '+' :: rest => (false, rest)
  | '-' :: rest => (true, rest)
  | cs => (false, cs)

/-- Whether the word is a whole number in base ten without zeros before it. -/
def isWhole (cs : List Char) : Bool :=
  isSpaced Char.isDigit cs && (cs == ['0'] || cs.head? != some '0')

/-- Whether the word is an integer of 64 bits. -/
def isInteger (cs : List Char) : Bool :=
  match cs with
  | '0' :: 'x' :: ds =>
    isSpaced (fun c => c.isDigit || ('a' ≤ c && c ≤ 'f') || ('A' ≤ c && c ≤ 'F')) ds &&
      digitsValue 16 (unspaced ds) < Nat.pow 2 63
  | '0' :: 'o' :: ds =>
    isSpaced (fun c => '0' ≤ c && c ≤ '7') ds && digitsValue 8 (unspaced ds) < Nat.pow 2 63
  | '0' :: 'b' :: ds =>
    isSpaced (fun c => c == '0' || c == '1') ds && digitsValue 2 (unspaced ds) < Nat.pow 2 63
  | cs =>
    let (negative, ds) := splitSign cs
    isWhole ds &&
      (let n := digitsValue 10 (unspaced ds)
      if negative then n ≤ Nat.pow 2 63 else n < Nat.pow 2 63)

/-- The parts of a number with a fraction or an exponent, after its sign: the digits before and
after the point, and the exponent after its mark. -/
structure FloatParts where
  whole : List Char
  fraction : Option (List Char)
  exponent : Option (List Char)
deriving Repr

namespace FloatParts

/-- The parts of a word. -/
def ofWord (cs : List Char) : FloatParts :=
  let isMark := fun c => c == 'e' || c == 'E'
  let mantissa := cs.takeWhile (!isMark ·)
  { whole := mantissa.takeWhile (· != '.')
    fraction := (mantissa.dropWhile (· != '.')).tail?
    exponent := (cs.dropWhile (!isMark ·)).tail? }

/-- Whether the parts are written as they should be. -/
def isWellFormed (p : FloatParts) : Bool :=
  isWhole p.whole && (p.fraction.isSome || p.exponent.isSome) &&
    p.fraction.all (isSpaced Char.isDigit) &&
    p.exponent.all fun e => isSpaced Char.isDigit (splitSign e).2

/-- The exponent as a number. -/
def power (p : FloatParts) : Int :=
  match p.exponent.map splitSign with
  | some (true, ds) => -(digitsValue 10 (unspaced ds) : Int)
  | some (false, ds) => digitsValue 10 (unspaced ds)
  | none => 0

/-- Whether the number is not rounded up to infinity. -/
def isFinite (p : FloatParts) : Bool :=
  let fraction := unspaced (p.fraction.getD [])
  Decimal.isFinite (digitsValue 10 (unspaced p.whole ++ fraction)) (p.power - fraction.length)

end FloatParts

/-- Whether the word is a number with a fraction or an exponent, or names a special one. -/
def isFloat (cs : List Char) : Bool :=
  let (negative, body) := splitSign cs
  if body = "inf".toList ∨ body = "nan".toList then true
  else
    let p := FloatParts.ofWord body
    p.isWellFormed && (negative || p.isFinite)

/-- The number of days of a month. -/
def daysIn (year month : Nat) : Nat :=
  if month = 2 then
    if year % 4 = 0 ∧ (year % 100 ≠ 0 ∨ year % 400 = 0) then 29 else 28
  else if month = 4 ∨ month = 6 ∨ month = 9 ∨ month = 11 then 30
  else 31

/-- Whether the word is a date. -/
def isDate : List Char → Bool
  | [a, b, c, d, '-', e, f, '-', g, h] =>
    [a, b, c, d, e, f, g, h].all Char.isDigit &&
      (let year := digitsValue 10 [a, b, c, d]
      let month := digitsValue 10 [e, f]
      let day := digitsValue 10 [g, h]
      1 ≤ month && month ≤ 12 && 1 ≤ day && day ≤ daysIn year month)
  | _ => false

/-- Whether the word is a number of hours and minutes. -/
def isHoursAndMinutes : List Char → Bool
  | [a, b, ':', c, d] =>
    [a, b, c, d].all Char.isDigit && digitsValue 10 [a, b] ≤ 23 && digitsValue 10 [c, d] ≤ 59
  | _ => false

/-- Whether the word is a number of seconds, with or without a fraction. -/
def isSeconds : List Char → Bool
  | [a, b] => a.isDigit && b.isDigit && digitsValue 10 [a, b] ≤ 60
  | a :: b :: '.' :: fraction =>
    a.isDigit && b.isDigit && digitsValue 10 [a, b] ≤ 60 && !fraction.isEmpty &&
      fraction.all Char.isDigit
  | _ => false

/-- Whether the word is a time of day. -/
def isTime (cs : List Char) : Bool :=
  isHoursAndMinutes (cs.take 5) && (cs.drop 5).head? == some ':' && isSeconds (cs.drop 6)

/-- Whether the word is a time of day with a place on the globe. -/
def isTimeWithOffset (cs : List Char) : Bool :=
  match cs.getLast? with
  | some 'Z' | some 'z' => isTime cs.dropLast
  | _ =>
    let time := cs.take (cs.length - 6)
    match cs.drop (cs.length - 6) with
    | '+' :: offset | '-' :: offset => isTime time && isHoursAndMinutes offset
    | _ => false

/-- Whether the word is a date, a time or both. -/
def isDateTime (cs : List Char) : Bool :=
  isDate cs || isTime cs ||
    (isDate (cs.take 10) &&
      (match (cs.drop 10).head? with
        | some 'T' | some 't' | some ' ' => true
        | _ => false) &&
      (isTime (cs.drop 11) || isTimeWithOffset (cs.drop 11)))

/-- Whether the word is a number or a date. -/
def isScalar (cs : List Char) : Bool :=
  isInteger cs || isFloat cs || isDateTime cs

end Mutability.Toml
