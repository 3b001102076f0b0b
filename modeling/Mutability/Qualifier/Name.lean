import Mutability.Qualifier.Basic
import Mutability.Text.Blank

/-!
# Reading a qualifier from an annotation

An annotation may be written with blanks around it, with any number of marks `@` before it, and
with the package it comes from. Only the last component of the name decides. The name
`PolyImmutable` is an older spelling of `PolyMutable`.
-/

namespace Mutability.Qualifier

/-- A text that names no qualifier. -/
structure UnknownName where
  text : String
deriving DecidableEq, Repr

/-- The qualifier with this name, the older spelling of `PolyMutable` included. -/
def ofSimpleName? (name : List Char) : Option Qualifier :=
  if name = "PolyImmutable".toList then some polyMutable
  else all.find? fun q => q.simpleName.toList = name

/-- The annotation without blanks around it and without the marks before it. -/
def bare (cs : List Char) : List Char :=
  (Text.trim cs).dropWhile (· == '@')

/-- The qualifier that an annotation text names, read from its characters. -/
def ofText? (cs : List Char) : Option Qualifier :=
  ofSimpleName? (Text.afterLast '.' (bare cs))

/-- The qualifier that an annotation text names. A text that names none is reported as given. -/
def parse (text : String) : Except UnknownName Qualifier :=
  match ofText? text.toList with
  | some q => .ok q
  | none => .error ⟨text⟩

end Mutability.Qualifier
