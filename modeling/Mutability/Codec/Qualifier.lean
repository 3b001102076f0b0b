import Mutability.Field
import Mutability.Fault
import Mutability.Json.Shape
import Mutability.Viewpoint

/-!
# Qualifiers, signatures, fields and states as JSON

What has finitely many cases is written by the name of the case, all else as a record with its
members in the order of declaration.
-/

namespace Mutability

def Qualifier.toJson (q : Qualifier) : Json :=
  .str q.simpleName

/-- Reads a qualifier. Only the exact names are taken here. -/
def Qualifier.ofJson? (j : Json) : Option Qualifier :=
  j.choice? false all simpleName

def Origin.toJson (o : Origin) : Json :=
  .str o.name

def Origin.ofJson? (j : Json) : Option Origin :=
  j.choice? false all name

def Assignability.toJson (a : Assignability) : Json :=
  .str a.name

def Assignability.ofJson? (j : Json) : Option Assignability :=
  j.choice? false all name

def TreeKind.toJson (t : TreeKind) : Json :=
  .str t.name

def TreeKind.ofJson? (j : Json) : Option TreeKind :=
  j.choice? false all name

def Signature.ofJson? (j : Json) : Option Signature := do
  let [name, isStatic, receiver, params, ret] ←
    j.record? ["name", "is_static", "receiver", "params", "ret"] | none
  return {
    name := ← name.required Json.string?
    isStatic := ← isStatic.required Json.bool?
    receiver := ← receiver.optionalByName Qualifier.ofJson?
    params := ← params.required (Json.list? Qualifier.ofJson?)
    ret := ← ret.required Qualifier.ofJson? }

def Field.toJson (f : Field) : Json :=
  .obj [("name", .str f.name), ("declared", f.declared.toJson),
    ("assignability", f.assignability.toJson), ("is_static", .bool f.isStatic)]

def Field.ofJson? (j : Json) : Option Field := do
  let [name, declared, assignability, isStatic] ←
    j.record? ["name", "declared", "assignability", "is_static"] | none
  return {
    name := ← name.required Json.string?
    declared := ← declared.required Qualifier.ofJson?
    assignability := ← assignability.required Assignability.ofJson?
    isStatic := ← isStatic.required Json.bool? }

/-- A state is written by its name, a depth as the payload. -/
def InitState.toJson : InitState → Json
  | initialized => .str "initialized"
  | underInitialization n => .obj [("under_initialization", .ofNat n.toNat)]
  | unknownInitialization n => .obj [("unknown_initialization", .ofNat n.toNat)]
  | bottom => .str "bottom"

def InitState.depth? (j : Json) : Option UInt32 :=
  (j.natBelow? UInt32.size).map UInt32.ofNat

def InitState.ofJson? (j : Json) : Option InitState := do
  match ← j.case? with
  | ("initialized", payload) => if Json.isNoPayload false payload then some initialized else none
  | ("under_initialization", some n) => underInitialization <$> depth? n
  | ("unknown_initialization", some n) => unknownInitialization <$> depth? n
  | ("bottom", payload) => if Json.isNoPayload false payload then some bottom else none
  | _ => none

def ObjectState.toJson (o : ObjectState) : Json :=
  .obj [("mutability", o.mutability.toJson), ("initialization", o.initialization.toJson)]

def ObjectState.ofJson? (j : Json) : Option ObjectState := do
  let [mutability, initialization] ← j.record? ["mutability", "initialization"] | none
  return {
    mutability := ← mutability.required Qualifier.ofJson?
    initialization := ← initialization.required InitState.ofJson? }

/-- A qualifier of either hierarchy is written with the name of the hierarchy. -/
def AnyQualifier.toJson : AnyQualifier → Json
  | mutability q => .obj [("Mutability", q.toJson)]
  | initialization s => .obj [("Initialization", s.toJson)]

def AnyQualifier.ofJson? (j : Json) : Option AnyQualifier := do
  match ← j.case? with
  | ("Mutability", some q) => mutability <$> Qualifier.ofJson? q
  | ("Initialization", some s) => initialization <$> InitState.ofJson? s
  | _ => none

end Mutability
