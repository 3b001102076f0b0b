import Mutability.Json.Number

/-!
# Reading JSON

The reader takes the whole of a text or nothing of it: no comments, no trailing commas, no raw
control characters in strings, no blanks but the four of the format. A part for which no value
stands is read as `skipped`, see `Json`.
-/

namespace Mutability.Json

/-- How deeply arrays and objects may be nested in a value that is looked at. -/
def maxDepth : Nat := 127

def isSpace (c : Char) : Bool :=
  c == ' ' || c == '\t' || c == '\n' || c == '\r'

def skipSpace (cs : List Char) : List Char :=
  cs.dropWhile isSpace

def hexValue? (c : Char) : Option Nat :=
  let n := c.toNat
  if 48 ≤ n ∧ n ≤ 57 then some (n - 48)
  else if 65 ≤ n ∧ n ≤ 70 then some (n - 55)
  else if 97 ≤ n ∧ n ≤ 102 then some (n - 87)
  else none

/-! ## Strings -/

/-- What has been read of a string: its characters, last one first, and the first half of a
surrogate pair that waits for its second half. A string with half a pair is broken. -/
structure StringState where
  chars : List Char
  half : Option Nat
  broken : Bool
deriving Repr

namespace StringState

def start : StringState := ⟨[], none, false⟩

def push (s : StringState) (c : Char) : StringState :=
  ⟨c :: s.chars, none, s.broken || s.half.isSome⟩

/-- A code unit follows, written as an escape. -/
def pushUnit (s : StringState) (u : Nat) : StringState :=
  let isLow : Bool := 0xDC00 ≤ u && u ≤ 0xDFFF
  match s.half with
  | some h =>
    if isLow then
      ⟨Char.ofNat (0x10000 + (h - 0xD800) * 0x400 + (u - 0xDC00)) :: s.chars, none, s.broken⟩
    else ⟨s.chars, none, true⟩
  | none =>
    if 0xD800 ≤ u && u ≤ 0xDBFF then ⟨s.chars, some u, s.broken⟩
    else if isLow then ⟨s.chars, none, true⟩
    else ⟨Char.ofNat u :: s.chars, none, s.broken⟩

/-- The string, if it has no half pair. -/
def finish (s : StringState) : Option String :=
  if s.broken || s.half.isSome then none else some (String.ofList s.chars.reverse)

end StringState

/-- The character of a one-letter escape. -/
def escaped? (c : Char) : Option Char :=
  if c = '"' ∨ c = '\\' ∨ c = '/' then some c
  else if c = 'b' then some (Char.ofNat 0x08)
  else if c = 'f' then some (Char.ofNat 0x0C)
  else if c = 'n' then some '\n'
  else if c = 'r' then some '\r'
  else if c = 't' then some '\t'
  else none

/-- Reads a string after its opening mark. The string is `none` if it has half a pair. -/
def readString (s : StringState) : List Char → Option (Option String × List Char)
  | [] => none
  | '"' :: rest => some (s.finish, rest)
  | '\\' :: 'u' :: a :: b :: c :: d :: rest =>
    match hexValue? a, hexValue? b, hexValue? c, hexValue? d with
    | some w, some x, some y, some z =>
      readString (s.pushUnit (w * 4096 + x * 256 + y * 16 + z)) rest
    | _, _, _, _ => none
  | '\\' :: e :: rest =>
    match escaped? e with
    | some c => readString (s.push c) rest
    | none => none
  | c :: rest => if c.toNat < 0x20 ∨ c = '\\' then none else readString (s.push c) rest

/-! ## Values -/

mutual

/-- Reads a value, blanks before it included. `room` is how many levels of nesting may still be
looked at; `fuel` bounds the number of steps. -/
def readValue : Nat → Nat → List Char → Option (Json × List Char)
  | 0, _, _ => none
  | fuel + 1, room, cs =>
    match skipSpace cs with
    | 'n' :: 'u' :: 'l' :: 'l' :: rest => some (null, rest)
    | 't' :: 'r' :: 'u' :: 'e' :: rest => some (bool true, rest)
    | 'f' :: 'a' :: 'l' :: 's' :: 'e' :: rest => some (bool false, rest)
    | '"' :: rest => do
      let (s, rest) ← readString .start rest
      return (match s with
        | some s => str s
        | none => skipped, rest)
    | '[' :: rest => do
      let (items, rest) ← match skipSpace rest with
        | ']' :: rest => some ([], rest)
        | rest => readItems fuel (room - 1) rest
      return (if room = 0 then skipped else arr items, rest)
    | '\x7b' :: rest => do
      let (members, rest) ← match skipSpace rest with
        | '\x7d' :: rest => some (some [], rest)
        | rest => readMembers fuel (room - 1) rest
      return (match members with
        | some members => if room = 0 then skipped else obj members
        | none => skipped, rest)
    | rest => do
      let (parts, rest) ← readNumberParts rest
      return (parts.value, rest)

def readItems : Nat → Nat → List Char → Option (List Json × List Char)
  | 0, _, _ => none
  | fuel + 1, room, cs => do
    let (j, rest) ← readValue fuel room cs
    match skipSpace rest with
    | ',' :: rest => do
      let (items, rest) ← readItems fuel room rest
      return (j :: items, rest)
    | ']' :: rest => return ([j], rest)
    | _ => none

/-- Reads the members of an object and its closing brace. The members are `none` if one of their
names has half a pair. -/
def readMembers : Nat → Nat → List Char → Option (Option (List (String × Json)) × List Char)
  | 0, _, _ => none
  | fuel + 1, room, cs => do
    let (name, rest) ← match skipSpace cs with
      | '"' :: rest => readString .start rest
      | _ => none
    let (j, rest) ← match skipSpace rest with
      | ':' :: rest => readValue fuel room rest
      | _ => none
    let (members, rest) ← match skipSpace rest with
      | ',' :: rest => readMembers fuel room rest
      | '\x7d' :: rest => some (some [], rest)
      | _ => none
    return (do return (← name, j) :: (← members), rest)

end

/-- The value of a text, if it is a value from its first character to its last. -/
def parse? (text : String) : Option Json :=
  let cs := text.toList
  match readValue (2 * cs.length + 2) maxDepth cs with
  | some (j, rest) => if (skipSpace rest).isEmpty then some j else none
  | none => none

end Mutability.Json
