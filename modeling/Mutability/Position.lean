import Mutability.HostType
import Mutability.Qualifier.Basic

/-!
# Type positions

A position is a place in a program where a type is written or computed: its role (`Kind`), its host
type, and the qualifier that it carries, together with where that qualifier came from. An
annotation written in the program is never replaced.
-/

namespace Mutability

/-- Where the qualifier of a position came from. -/
inductive Origin
  /-- It is written in the program. -/
  | explicit
  /-- It is that of an operand. -/
  | propagated
  /-- It was given by default. -/
  | defaulted
  /-- It is that of an assigned value. -/
  | refined
deriving DecidableEq, Repr, Inhabited

namespace Origin

/-- Every origin. -/
def all : List Origin :=
  [explicit, propagated, defaulted, refined]

/-- The name of the origin in reports. -/
def name : Origin → String
  | explicit => "explicit"
  | propagated => "propagated"
  | defaulted => "defaulted"
  | refined => "refined"

end Origin

/-- A qualifier and where it came from. -/
structure Marking where
  qualifier : Qualifier
  origin : Origin
deriving DecidableEq, Repr, Inhabited

/-- The role of a position in its program. -/
inductive Position.Kind
  | staticField
  | instanceField
  | receiver (method : String)
  | parameter (method : String) (index : Nat)
  | methodReturn (method : String)
  | constructorReturn
  | localVariable
  | cast
  | binary
  | nullLiteral
  | newObject
deriving DecidableEq, Repr, Inhabited

/-- The role in words. -/
def Position.Kind.display : Position.Kind → String
  | staticField => "static field"
  | instanceField => "field"
  | receiver method => "receiver of " ++ method
  | parameter method index => "parameter " ++ index.repr ++ " of " ++ method
  | methodReturn method => "return of " ++ method
  | constructorReturn => "constructor return"
  | localVariable => "local variable"
  | cast => "cast"
  | binary => "binary expression"
  | nullLiteral => "null literal"
  | newObject => "object creation"

/-- A place in a program where a type is written or computed. -/
structure Position where
  kind : Position.Kind
  host : HostType
  marking : Option Marking
deriving DecidableEq, Repr, Inhabited

namespace Position

/-- A position without a qualifier. -/
def bare (kind : Kind) (host : HostType) : Position :=
  ⟨kind, host, none⟩

/-- A position as it is written in the program, with or without an annotation. -/
def written (kind : Kind) (host : HostType) (explicit : Option Qualifier) : Position :=
  ⟨kind, host, explicit.map (⟨·, .explicit⟩)⟩

/-- The qualifier of the position, if it has one. -/
def qualifier? (p : Position) : Option Qualifier :=
  p.marking.map Marking.qualifier

/-- Whether the position is annotated in the program. -/
def isExplicit (p : Position) : Bool :=
  match p.marking with
  | some a => a.origin == .explicit
  | none => false

/-- Gives a qualifier to a position that has none. -/
def fill (p : Position) (q : Qualifier) (origin : Origin) : Position :=
  match p.marking with
  | none => { p with marking := some ⟨q, origin⟩ }
  | some _ => p

/-- Gives a qualifier to a position that is not annotated in the program. -/
def replaceUnlessExplicit (p : Position) (q : Qualifier) (origin : Origin) : Position :=
  if p.isExplicit then p else { p with marking := some ⟨q, origin⟩ }

/-- The position in words: its qualifier if it has one, its host type and its role. -/
def display (p : Position) : String :=
  match p.qualifier? with
  | some q => q.annotationName ++ " " ++ p.host.display ++ " (" ++ p.kind.display ++ ")"
  | none => p.host.display ++ " (" ++ p.kind.display ++ ")"

end Position

end Mutability
