import Mutability.Collection.OrderedMap
import Mutability.Diagnostic
import Mutability.Initialization
import Mutability.Position

/-!
# Reports

The outcome of a check: the diagnostics with the members they belong to, every declared position
with the qualifier it ended up with, the state in which each constructor leaves its object, and for
each class the state of a new object of it.
-/

namespace Mutability

/-- A member of a class. -/
structure Location where
  className : String
  member : String
deriving DecidableEq, Repr, Inhabited

/-- The class and the member, with a dot between them. -/
def Location.display (l : Location) : String :=
  l.className ++ "." ++ l.member

/-- A diagnostic and the member it belongs to. -/
structure LocatedDiagnostic where
  location : Location
  diagnostic : Diagnostic
deriving DecidableEq, Repr, Inhabited

/-- The member and what is said about it. -/
def LocatedDiagnostic.display (d : LocatedDiagnostic) : String :=
  d.location.display ++ ": " ++ d.diagnostic.display

/-- How a constructor leaves its object. -/
structure ConstructorSummary where
  location : Location
  object : ObjectState
  /-- The fields that the constructor ought to set and never writes. -/
  uninitialized : List String
deriving DecidableEq, Repr, Inhabited

/-- The outcome of a check. -/
structure Report where
  diagnostics : List LocatedDiagnostic
  /-- Every declared position, in the order of declaration. -/
  positions : List Position
  constructors : List ConstructorSummary
  /-- For each class with constructors, the state of a new object. -/
  objects : OrderedMap String ObjectState
deriving DecidableEq, Repr

namespace Report

/-- The report about nothing. -/
def empty : Report := ⟨[], [], [], ∅⟩

instance : EmptyCollection Report := ⟨empty⟩

instance : Inhabited Report := ⟨∅⟩

/-- Whether anything was found. -/
def hasErrors (r : Report) : Bool :=
  !r.diagnostics.isEmpty

/-- The message keys of the diagnostics, in order. -/
def keys (r : Report) : List String :=
  r.diagnostics.map fun d => d.diagnostic.kind.key

/-- The kinds of the diagnostics of one member, in order. -/
def forMember (r : Report) (l : Location) : List Diagnostic.Kind :=
  (r.diagnostics.filter fun d => d.location = l).map fun d => d.diagnostic.kind

end Report

end Mutability
