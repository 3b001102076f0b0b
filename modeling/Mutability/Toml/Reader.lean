import Mutability.Toml.Basic
import Mutability.Toml.Scalar

/-!
# Reading TOML

The reader splits a text into parts (`Section`), each with its header and the pairs below it, and
puts them together. A mark for the byte order at the start is skipped.
-/

namespace Mutability.Toml

/-- How deeply arrays and closed tables may be nested, and how many parts a key may have. -/
def maxDepth : Nat := 79

/-! ## Blanks and comments -/

/-- The blanks within a line. -/
def isSpace (c : Char) : Bool :=
  c == ' ' || c == '\t'

/-- The text after the blanks at its start. -/
def skipSpace (cs : List Char) : List Char :=
  cs.dropWhile isSpace

/-- Whether a character may stand in a comment: no control character but the tab. -/
def isPlain (c : Char) : Bool :=
  c == '\t' || (0x20 ≤ c.toNat && c.toNat != 0x7F)

/-- The text after a comment, if one starts it. -/
def skipComment : List Char → List Char
  | '#' :: rest => rest.dropWhile isPlain
  | cs => cs

/-- The text after a line break. -/
def lineBreak? : List Char → Option (List Char)
  | '\n' :: rest => some rest
  | '\r' :: '\n' :: rest => some rest
  | _ => none

/-- The text after the rest of a line, blanks and a comment at most. -/
def lineEnd? (cs : List Char) : Option (List Char) :=
  match skipComment (skipSpace cs) with
  | [] => some []
  | rest => lineBreak? rest

/-- The text after blanks, comments and line breaks, in at most `fuel` lines. -/
def skipLines : Nat → List Char → List Char
  | 0, cs => cs
  | fuel + 1, cs =>
    let rest := skipComment (skipSpace cs)
    match lineBreak? rest with
    | some rest => skipLines fuel rest
    | none => rest

/-- The text after blanks and line breaks, in at most `fuel` lines. -/
def skipBlankLines : Nat → List Char → List Char
  | 0, cs => cs
  | fuel + 1, cs =>
    let rest := skipSpace cs
    match lineBreak? rest with
    | some rest => skipBlankLines fuel rest
    | none => rest

/-! ## Strings -/

/-- The character with a code point given by hexadecimal digits. -/
def ofHex? (ds : List Char) : Option Char :=
  let isHex := fun (c : Char) => c.isDigit || ('a' ≤ c && c ≤ 'f') || ('A' ≤ c && c ≤ 'F')
  let n := digitsValue 16 ds
  if ds.all isHex && (n < 0xD800 || (0xE000 ≤ n && n ≤ 0x10FFFF)) then some (Char.ofNat n)
  else none

/-- The character of a one-letter escape. -/
def escaped? (c : Char) : Option Char :=
  if c = '"' ∨ c = '\\' then some c
  else if c = 'b' then some (Char.ofNat 0x08)
  else if c = 't' then some '\t'
  else if c = 'n' then some '\n'
  else if c = 'f' then some (Char.ofNat 0x0C)
  else if c = 'r' then some '\r'
  else none

/-- Reads what follows a backslash. -/
def readEscape : List Char → Option (Char × List Char)
  | 'u' :: a :: b :: c :: d :: rest => (ofHex? [a, b, c, d]).map (·, rest)
  | 'U' :: a :: b :: c :: d :: e :: f :: g :: h :: rest =>
    (ofHex? [a, b, c, d, e, f, g, h]).map (·, rest)
  | c :: rest => (escaped? c).map (·, rest)
  | [] => none

/-- Reads a string with escapes after its opening mark. -/
def readBasic : Nat → List Char → List Char → Option (String × List Char)
  | 0, _, _ => none
  | fuel + 1, acc, cs =>
    match cs with
    | '"' :: rest => some (String.ofList acc.reverse, rest)
    | '\\' :: rest => do
      let (c, rest) ← readEscape rest
      readBasic fuel (c :: acc) rest
    | c :: rest => if isPlain c then readBasic fuel (c :: acc) rest else none
    | [] => none

/-- Reads a string without escapes after its opening mark. -/
def readLiteral (cs : List Char) : Option (String × List Char) :=
  let content := cs.takeWhile fun c => isPlain c && c != '\x27'
  match cs.drop content.length with
  | '\x27' :: rest => some (String.ofList content, rest)
  | _ => none

/-- The marks at the end of a string over several lines: those that belong to it, and the rest. -/
def closing? (mark : Char) (cs : List Char) : Option (List Char × List Char) :=
  let n := (cs.takeWhile (· == mark)).length
  if n < 3 then none
  else
    let extra := min (n - 3) 2
    some (List.replicate extra mark, cs.drop (3 + extra))

/-- Reads a string over several lines, with or without escapes, after its opening marks. -/
def readLong (mark : Char) : Nat → List Char → List Char → Option (String × List Char)
  | 0, _, _ => none
  | fuel + 1, acc, cs =>
    match closing? mark cs with
    | some (extra, rest) => some (String.ofList (acc.reverse ++ extra), rest)
    | none =>
      match lineBreak? cs with
      | some rest => readLong mark fuel ('\n' :: acc) rest
      | none =>
        match cs with
        | '\\' :: rest =>
          if mark = '"' then
            match lineBreak? (skipSpace rest) with
            | some rest => readLong mark fuel acc (skipBlankLines (rest.length + 1) rest)
            | none => do
              let (c, rest) ← readEscape rest
              readLong mark fuel (c :: acc) rest
          else readLong mark fuel ('\\' :: acc) rest
        | c :: rest => if isPlain c then readLong mark fuel (c :: acc) rest else none
        | [] => none

/-- The text of a long string without the line break right after its opening marks. -/
def dropFirstBreak (cs : List Char) : List Char :=
  (lineBreak? cs).getD cs

/-- Reads a string on one line or on several. -/
def readString (cs : List Char) : Option (String × List Char) :=
  match cs with
  | '"' :: '"' :: '"' :: rest => readLong '"' (rest.length + 1) [] (dropFirstBreak rest)
  | '\x27' :: '\x27' :: '\x27' :: rest => readLong '\x27' (rest.length + 1) [] (dropFirstBreak rest)
  | '"' :: rest => readBasic (rest.length + 1) [] rest
  | '\x27' :: rest => readLiteral rest
  | _ => none

/-! ## Keys -/

/-- The characters of a key without marks. -/
def isBare (c : Char) : Bool :=
  c.isAlphanum || c == '_' || c == '-'

/-- Reads a key without dots. -/
def readSimpleKey (cs : List Char) : Option (String × List Char) :=
  match cs with
  | '"' :: rest => readBasic (rest.length + 1) [] rest
  | '\x27' :: rest => readLiteral rest
  | cs =>
    match cs.takeWhile isBare with
    | [] => none
    | key => some (String.ofList key, cs.drop key.length)

/-- Reads a key of at most `room` parts and the blanks around it: the parts before the last dot, and
the last one. -/
def readParts : Nat → List Char → Option ((List String × String) × List Char)
  | 0, _ => none
  | room + 1, cs => do
    let (key, rest) ← readSimpleKey (skipSpace cs)
    match skipSpace rest with
    | '.' :: rest => do
      let ((path, last), rest) ← readParts room rest
      return ((key :: path, last), rest)
    | rest => return (([], key), rest)

/-- Reads a key and the blanks around it. -/
def readKey (cs : List Char) : Option ((List String × String) × List Char) :=
  readParts maxDepth cs

/-! ## Values -/

/-- The characters of words: truth values, numbers and dates. -/
def isWordChar (c : Char) : Bool :=
  c.isAlphanum || c == '_' || c == '+' || c == '-' || c == '.' || c == ':'

/-- Reads a word. A date may go on after a single blank with the hours. -/
def readWord (cs : List Char) : List Char × List Char :=
  let word := cs.takeWhile isWordChar
  let rest := cs.drop word.length
  match isDate word, rest with
  | true, ' ' :: a :: b :: ':' :: more =>
    if a.isDigit && b.isDigit then
      let time := (a :: b :: ':' :: more).takeWhile isWordChar
      (word ++ ' ' :: time, rest.drop (time.length + 1))
    else (word, rest)
  | _, _ => (word, rest)

/-- The value of a word. -/
def wordValue? (word : List Char) : Option Toml :=
  if word = "true".toList then some (bool true)
  else if word = "false".toList then some (bool false)
  else if isScalar word then some scalar
  else none

mutual

/-- Reads a value that is nested at most `room` deep. -/
def readValue : Nat → Nat → List Char → Option (Toml × List Char)
  | 0, _, _ => none
  | fuel + 1, room, cs =>
    match cs with
    | '"' :: _ | '\x27' :: _ => do
      let (s, rest) ← readString cs
      return (str s, rest)
    | '[' :: rest =>
      if room = 0 then none
      else do
        let (items, rest) ← readItems fuel (room - 1) rest
        return (arr items, rest)
    | '\x7b' :: rest =>
      if room = 0 then none
      else do
        let (pairs, rest) ← match skipSpace rest with
          | '\x7d' :: rest => some ([], rest)
          | rest => readPairs fuel (room - 1) rest
        let entries ← setAll pairs []
        return (table .inline entries, rest)
    | cs => do
      let (word, rest) := readWord cs
      return (← wordValue? word, rest)

/-- Reads the items of an array and its closing bracket. -/
def readItems : Nat → Nat → List Char → Option (List Toml × List Char)
  | 0, _, _ => none
  | fuel + 1, room, cs =>
    match skipLines (cs.length + 1) cs with
    | ']' :: rest => some ([], rest)
    | cs => do
      let (v, rest) ← readValue fuel room cs
      match skipLines (rest.length + 1) rest with
      | ',' :: rest => do
        let (items, rest) ← readItems fuel room rest
        return (v :: items, rest)
      | ']' :: rest => return ([v], rest)
      | _ => none

/-- Reads the pairs of a closed table and its closing brace. -/
def readPairs : Nat → Nat → List Char →
    Option (List (List String × String × Toml) × List Char)
  | 0, _, _ => none
  | fuel + 1, room, cs => do
    let ((path, key), rest) ← readKey cs
    match rest with
    | '=' :: rest => do
      let (v, rest) ← readValue fuel room (skipSpace rest)
      match skipSpace rest with
      | ',' :: rest => do
        let (pairs, rest) ← readPairs fuel room rest
        return ((path, key, v) :: pairs, rest)
      | '\x7d' :: rest => return ([(path, key, v)], rest)
      | _ => none
    | _ => none

end

/-! ## Documents -/

/-- A pair on a line of its own. -/
def readPair (cs : List Char) : Option ((List String × String × Toml) × List Char) := do
  let ((path, key), rest) ← readKey cs
  match rest with
  | '=' :: rest => do
    let (v, rest) ← readValue (2 * rest.length + 2) maxDepth (skipSpace rest)
    let rest ← lineEnd? rest
    return ((path, key, v), rest)
  | _ => none

/-- A header on a line of its own, if the text starts with a bracket. -/
def readHeader (cs : List Char) : Option (Header × List Char) :=
  match cs with
  | '[' :: '[' :: rest => do
    let ((path, key), rest) ← readKey rest
    match rest with
    | ']' :: ']' :: rest => return (⟨path, key, true⟩, ← lineEnd? rest)
    | _ => none
  | '[' :: rest => do
    let ((path, key), rest) ← readKey rest
    match rest with
    | ']' :: rest => return (⟨path, key, false⟩, ← lineEnd? rest)
    | _ => none
  | _ => none

/-- Reads the parts of a document from inside of one: the pairs up to the next header, and the
parts after it. -/
def readSections : Nat → List Char →
    Option (List (List String × String × Toml) × List Section)
  | 0, _ => none
  | fuel + 1, cs =>
    match skipLines (cs.length + 1) cs with
    | [] => some ([], [])
    | '[' :: rest => do
      let (header, rest) ← readHeader ('[' :: rest)
      let (pairs, sections) ← readSections fuel rest
      return ([], ⟨some header, pairs⟩ :: sections)
    | cs => do
      let (pair, rest) ← readPair cs
      let (pairs, sections) ← readSections fuel rest
      return (pair :: pairs, sections)

/-- The text without a mark for the byte order at its start. -/
def dropByteOrderMark : List Char → List Char
  | '\uFEFF' :: rest => rest
  | cs => cs

/-- The entries of a document. -/
def parse? (text : String) : Option Entries := do
  let cs := dropByteOrderMark text.toList
  let (pairs, sections) ← readSections (cs.length + 1) cs
  ofSections (⟨none, pairs⟩ :: sections)

end Mutability.Toml
