import Mutability.Configuration
import Mutability.Position

/-!
# Defaulting

A position without an annotation gets its qualifier from a list of stages. A stage says to which
positions it applies and what it makes of them; a run takes the stages in order and leaves out
those that do not apply. In the standard order:

1. types whose values can never change become `immutable`, whatever was known before;
2. static fields become `mutable`, since they have no receiver to depend on;
3. the methods that every class inherits get their fixed qualifiers;
4. the null literal is `bottom`;
5. everything else gets the configured qualifier.

An annotation written in the program survives every stage.
-/

namespace Mutability

/-- The stages of defaulting. -/
inductive Stage
  | implicitImmutability
  | staticField
  | objectMethods
  | nullLiteral
  | generic
deriving DecidableEq, Repr, Inhabited

/-- Makes a position `immutable` if values of its type can never change, unless another qualifier
is written there. -/
def Position.coerce (p : Position) (c : Configuration) : Position :=
  if c.isImplicitlyImmutable p.host then
    if p.qualifier? = some .immutable then p else p.replaceUnlessExplicit .immutable .defaulted
  else p

/-- The fixed qualifier of a position in the signature of a method that every class inherits. -/
def Position.Kind.objectMethodQualifier? : Position.Kind → Option Qualifier
  | .receiver method =>
    if method = "toString" ∨ method = "hashCode" ∨ method = "equals" then some .readonly
    else if method = "clone" then some .receiverDependant
    else none
  | .parameter method index => if method = "equals" ∧ index = 0 then some .readonly else none
  | .methodReturn method => if method = "clone" then some .receiverDependant else none
  | _ => none

namespace Stage

/-- The stages in the standard order. -/
def standard : List Stage :=
  [implicitImmutability, staticField, objectMethods, nullLiteral, generic]

/-- The name of the stage. -/
def name : Stage → String
  | implicitImmutability => "implicit-immutability"
  | staticField => "static-field"
  | objectMethods => "object-methods"
  | nullLiteral => "null-literal"
  | generic => "generic"

/-- The stage with this name. -/
def ofName? (name : String) : Option Stage :=
  standard.find? fun s => s.name = name

/-- Whether the stage has anything to say about the position. -/
def appliesTo (c : Configuration) (p : Position) : Stage → Bool
  | implicitImmutability => c.isImplicitlyImmutable p.host
  | staticField =>
    p.kind == .staticField && !p.isExplicit && !c.isImplicitlyImmutable p.host
  | objectMethods =>
    c.objectMethodDefaults && p.marking.isNone && p.kind.objectMethodQualifier?.isSome
  | nullLiteral => p.kind == .nullLiteral && p.marking.isNone
  | generic => p.marking.isNone

/-- What the stage makes of a position. -/
def apply (c : Configuration) (p : Position) : Stage → Position
  | implicitImmutability => p.coerce c
  | staticField => p.replaceUnlessExplicit .mutable .defaulted
  | objectMethods =>
    match p.kind.objectMethodQualifier? with
    | some q => p.fill q .defaulted
    | none => p
  | nullLiteral => p.fill .bottom .defaulted
  | generic => p.fill c.defaultQualifier .defaulted

/-- The stage as a step of a run: it acts only where it applies. -/
def step (c : Configuration) (p : Position) (s : Stage) : Position :=
  if s.appliesTo c p then s.apply c p else p

/-- Takes a position through the stages in order. -/
def run (c : Configuration) (stages : List Stage) (p : Position) : Position :=
  stages.foldl (step c) p

end Stage

end Mutability
