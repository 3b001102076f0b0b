/-!
# TOML documents

A document is a table. How a table came to be decides what may be added to it later, so it is kept
with the table. The values of numbers and dates are of no use here; they are only known to be well
formed.
-/

namespace Mutability

/-- How a table came to be. -/
inductive Toml.TableOrigin
  /-- It has a header of its own, or is the document. -/
  | header
  /-- It was only named on the way to the header of another table. -/
  | implied
  /-- It was named on the way to a dotted key. -/
  | dotted
  /-- It is written in braces, and closed. -/
  | inline
deriving DecidableEq, Repr, Inhabited

/-- A value in a document. -/
inductive Toml
  | str (s : String)
  | bool (b : Bool)
  /-- A number or a date. -/
  | scalar
  | arr (items : List Toml)
  | table (origin : Toml.TableOrigin) (entries : List (String × Toml))
  /-- Tables under a repeated header. -/
  | tables (items : List Toml)
deriving Repr, Inhabited

namespace Toml

/-- The entries of a table. -/
abbrev Entries := List (String × Toml)

/-- The entries with the value of a known key replaced. -/
def replace (key : String) (v : Toml) (es : Entries) : Entries :=
  es.map fun e => if e.1 == key then (key, v) else e

/-- Sets a key below a path of dotted keys. A key may be set once; tables with a header, closed
tables and values are not extended, and neither is a table that was only implied. -/
def setDotted : List String → String → Toml → Entries → Option Entries
  | [], key, v, es => if (es.lookup key).isSome then none else some (es ++ [(key, v)])
  | k :: path, key, v, es =>
    match es.lookup k with
    | none => do
      let inner ← setDotted path key v []
      return es ++ [(k, table .dotted inner)]
    | some (table .dotted inner) => do
      let inner ← setDotted path key v inner
      return replace k (table .dotted inner) es
    | some (table .implied inner) =>
      if path.isEmpty then none
      else do
        let inner ← setDotted path key v inner
        return replace k (table .implied inner) es
    | some (tables items) =>
      match path.isEmpty, items.getLast? with
      | false, some (table origin inner) => do
        let inner ← setDotted path key v inner
        return replace k (tables (items.dropLast ++ [table origin inner])) es
      | _, _ => none
    | some _ => none

/-- Sets several keys, each below its path. -/
def setAll (pairs : List (List String × String × Toml)) (es : Entries) : Option Entries :=
  pairs.foldlM (fun es p => setDotted p.1 p.2.1 p.2.2 es) es

/-- Changes the entries of the table at a path of headers. Of repeated tables the last is meant. -/
def atHeader (f : Entries → Option Entries) : List String → Entries → Option Entries
  | [], es => f es
  | k :: path, es =>
    match es.lookup k with
    | none => do
      let inner ← atHeader f path []
      return es ++ [(k, table .implied inner)]
    | some (table .inline _) => none
    | some (table origin inner) => do
      let inner ← atHeader f path inner
      return replace k (table origin inner) es
    | some (tables items) =>
      match items.getLast? with
      | some (table origin inner) => do
        let inner ← atHeader f path inner
        return replace k (tables (items.dropLast ++ [table origin inner])) es
      | _ => none
    | some _ => none

/-- A header: the path of its table, the last key apart, and whether it may be repeated. -/
structure Header where
  path : List String
  key : String
  isRepeated : Bool
deriving DecidableEq, Repr

/-- A part of a document: a header, none for the first part, and the pairs below it. -/
structure Section where
  header : Option Header
  pairs : List (List String × String × Toml)
deriving Repr

/-- Adds a part to a document. A header names a new table, or one that was only implied. -/
def addSection (es : Entries) (s : Section) : Option Entries :=
  match s.header with
  | none => setAll s.pairs es
  | some h =>
    if h.isRepeated then
      atHeader (fun es => do
        let inner ← setAll s.pairs []
        match es.lookup h.key with
        | none => return es ++ [(h.key, tables [table .header inner])]
        | some (tables items) => return replace h.key (tables (items ++ [table .header inner])) es
        | some _ => none) h.path es
    else
      atHeader (fun es => do
        let known ← match es.lookup h.key with
          | none => some []
          | some (table .implied inner) => some inner
          | some _ => none
        let inner ← setAll s.pairs known
        return (es.filter fun e => e.1 != h.key) ++ [(h.key, table .header inner)]) h.path es

/-- The entries of a document with these parts. -/
def ofSections (sections : List Section) : Option Entries :=
  sections.foldlM addSection []

end Toml

end Mutability
