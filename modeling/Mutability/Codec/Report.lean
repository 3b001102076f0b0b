import Mutability.Codec.Position
import Mutability.Report

/-!
# Reports as JSON

A located diagnostic is one object that holds the location, the kind and the message side by side,
so it has no form as an array, and it is looked at as a whole.
-/

namespace Mutability

def Diagnostic.toJson (d : Diagnostic) : Json :=
  .obj [("kind", .str d.kind.name), ("message", .str d.message)]

def Diagnostic.Kind.read? (insideTagged : Bool) (j : Json) : Option Diagnostic.Kind :=
  j.choice? insideTagged all name

def Diagnostic.ofJson? (j : Json) : Option Diagnostic := do
  let [kind, message] ← j.record? ["kind", "message"] | none
  return {
    kind := ← kind.required (Diagnostic.Kind.read? false)
    message := ← message.required Json.string? }

def Location.toJson (l : Location) : Json :=
  .obj [("class", .str l.className), ("member", .str l.member)]

def Location.ofJson? (j : Json) : Option Location := do
  let [className, member] ← j.record? ["class", "member"] | none
  return {
    className := ← className.required Json.string?
    member := ← member.required Json.string? }

/-- A located diagnostic is written as one object. -/
def LocatedDiagnostic.toJson (d : LocatedDiagnostic) : Json :=
  .obj [("location", d.location.toJson), ("kind", .str d.diagnostic.kind.name),
    ("message", .str d.diagnostic.message)]

def LocatedDiagnostic.ofJson? : Json → Option LocatedDiagnostic
  | .obj members => do
    let [location, kind, message] ← (Json.obj members).record? ["location", "kind", "message"]
      | none
    let rest := Json.obj (members.filter fun m => m.1 != "location")
    if rest.isComplete then
      return {
        location := ← location.required Location.ofJson?
        diagnostic := {
          kind := ← kind.required (Diagnostic.Kind.read? true)
          message := ← message.required Json.string? } }
    else none
  | _ => none

def ConstructorSummary.toJson (s : ConstructorSummary) : Json :=
  .obj [("location", s.location.toJson), ("object", s.object.toJson),
    ("uninitialized", .ofList Json.str s.uninitialized)]

def ConstructorSummary.ofJson? (j : Json) : Option ConstructorSummary := do
  let [location, object, uninitialized] ←
    j.record? ["location", "object", "uninitialized"] | none
  return {
    location := ← location.required Location.ofJson?
    object := ← object.required ObjectState.ofJson?
    uninitialized := ← uninitialized.required (Json.list? Json.string?) }

def Report.toJson (r : Report) : Json :=
  .obj [("diagnostics", .ofList LocatedDiagnostic.toJson r.diagnostics),
    ("positions", .ofList Position.toJson r.positions),
    ("constructors", .ofList ConstructorSummary.toJson r.constructors),
    ("objects", .obj (r.objects.entries.map fun e => (e.1, e.2.toJson)))]

def Report.ofJson? (j : Json) : Option Report := do
  let [diagnostics, positions, constructors, objects] ←
    j.record? ["diagnostics", "positions", "constructors", "objects"] | none
  return {
    diagnostics := ← diagnostics.required (Json.list? LocatedDiagnostic.ofJson?)
    positions := ← positions.required (Json.list? Position.ofJson?)
    constructors := ← constructors.required (Json.list? ConstructorSummary.ofJson?)
    objects := ← objects.required fun j => (j.entries? ObjectState.ofJson?).map .ofList }

end Mutability
