import Mutability.Configuration
import Mutability.Diagnostic
import Mutability.Position

/-!
# Annotations that can never be legal

Some qualifiers may not be written at some positions, whatever the rest of the program says. Only
annotations written in the program are judged.
-/

namespace Mutability.Position

/-- The diagnostic for a qualifier written where it can never be legal, if it is one. -/
def illegality? (p : Position) (c : Configuration) : Option Diagnostic :=
  match p.marking with
  | some ⟨q, .explicit⟩ =>
    let kind : Diagnostic.Kind := if p.kind = .cast then .invalidCastQualifier else .typeInvalid
    if c.isImplicitlyImmutable p.host && q != .immutable then
      some ⟨kind, q.annotationName ++ " is not allowed on implicitly immutable type " ++
        p.host.display⟩
    else if q = .substitutable ∨ q = .bottom then
      some ⟨kind, q.annotationName ++ " cannot be written in source"⟩
    else if q.isPolymorphic && p.kind == .staticField then
      some ⟨kind, q.annotationName ++ " is not allowed on a static field"⟩
    else none
  | _ => none

end Mutability.Position
