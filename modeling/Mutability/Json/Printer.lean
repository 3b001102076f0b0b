import Mutability.Json.Basic

/-!
# Printing JSON

A value is written on one line (`compact`) or with one member or item a line, indented by two
blanks a level (`pretty`). In strings only the quotation mark, the backslash and the control
characters below the blank are escaped.
-/

namespace Mutability.Json

def hexDigit (n : Nat) : Char :=
  if n < 10 then Char.ofNat (n + 48) else Char.ofNat (n + 87)

def escapeChar (c : Char) : List Char :=
  if c = '"' then ['\\', '"']
  else if c = '\\' then ['\\', '\\']
  else if c.toNat = 0x08 then ['\\', 'b']
  else if c.toNat = 0x0C then ['\\', 'f']
  else if c = '\n' then ['\\', 'n']
  else if c = '\r' then ['\\', 'r']
  else if c = '\t' then ['\\', 't']
  else if c.toNat < 0x20 then
    ['\\', 'u', '0', '0', hexDigit (c.toNat / 16), hexDigit (c.toNat % 16)]
  else [c]

def quote (s : String) : String :=
  "\"" ++ String.ofList (s.toList.flatMap escapeChar) ++ "\""

def Number.print : Number → String
  | .nat n => n.repr
  | .decimal text => text

mutual

/-- The value on one line without blanks. -/
def compact : Json → String
  | null | skipped => "null"
  | bool b => if b then "true" else "false"
  | num n => n.print
  | str s => quote s
  | arr items => "[" ++ ",".intercalate (compactItems items) ++ "]"
  | obj members => "\x7b" ++ ",".intercalate (compactMembers members) ++ "\x7d"

def compactItems : List Json → List String
  | [] => []
  | j :: rest => compact j :: compactItems rest

def compactMembers : List (String × Json) → List String
  | [] => []
  | (k, j) :: rest => (quote k ++ ":" ++ compact j) :: compactMembers rest

end

def lineBreak (level : Nat) : String :=
  "\n" ++ String.ofList (List.replicate (2 * level) ' ')

/-- The lines of an array or object inside its brackets, which close at `level`. -/
def block (level : Nat) (lines : List String) : String :=
  lineBreak (level + 1) ++ ("," ++ lineBreak (level + 1)).intercalate lines ++ lineBreak level

mutual

/-- The value with one item or member a line, starting at a level of indentation. -/
def prettyAt (level : Nat) : Json → String
  | null | skipped => "null"
  | bool b => if b then "true" else "false"
  | num n => n.print
  | str s => quote s
  | arr [] => "[]"
  | arr items => "[" ++ block level (prettyItems (level + 1) items) ++ "]"
  | obj [] => "\x7b\x7d"
  | obj members => "\x7b" ++ block level (prettyMembers (level + 1) members) ++ "\x7d"

def prettyItems (level : Nat) : List Json → List String
  | [] => []
  | j :: rest => prettyAt level j :: prettyItems level rest

def prettyMembers (level : Nat) : List (String × Json) → List String
  | [] => []
  | (k, j) :: rest => (quote k ++ ": " ++ prettyAt level j) :: prettyMembers level rest

end

def pretty (j : Json) : String :=
  prettyAt 0 j

mutual

/-- The value with the members of every object in the order of their names. -/
def sorted : Json → Json
  | arr items => arr (sortedItems items)
  | obj members => obj ((sortedMembers members).mergeSort fun a b => a.1 ≤ b.1)
  | j => j

def sortedItems : List Json → List Json
  | [] => []
  | j :: rest => sorted j :: sortedItems rest

def sortedMembers : List (String × Json) → List (String × Json)
  | [] => []
  | (k, j) :: rest => (k, sorted j) :: sortedMembers rest

end

end Mutability.Json
