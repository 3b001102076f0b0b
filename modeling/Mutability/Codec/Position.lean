import Mutability.Codec.Qualifier

/-!
# Types and positions as JSON

A type is an object with its case as the only member, a role is a tagged value, and a position is a
record. Types come inside tagged values as well as elsewhere, and are read a little differently
there.
-/

namespace Mutability

def Primitive.toJson (p : Primitive) : Json :=
  .str p.name

def Primitive.read? (insideTagged : Bool) (j : Json) : Option Primitive :=
  j.choice? insideTagged all name

def HostType.toJson : HostType → Json
  | primitive p => .obj [("primitive", p.toJson)]
  | boxed p => .obj [("boxed", p.toJson)]
  | declared name => .obj [("declared", .str name)]
  | array element => .obj [("array", element.toJson)]
  | typeVariable name => .obj [("type_variable", .str name)]
  | null => .str "null"

/-- Reads a host type whose arrays are nested less than `fuel` deep. -/
def HostType.readWithin (insideTagged : Bool) : Nat → Json → Option HostType
  | 0, _ => none
  | fuel + 1, j => do
    match ← j.case? with
    | ("primitive", some p) => primitive <$> Primitive.read? insideTagged p
    | ("boxed", some p) => boxed <$> Primitive.read? insideTagged p
    | ("declared", some name) => declared <$> name.string?
    | ("array", some element) => array <$> HostType.readWithin insideTagged fuel element
    | ("type_variable", some name) => typeVariable <$> name.string?
    | ("null", payload) => if Json.isNoPayload insideTagged payload then some null else none
    | _ => none

/-- Reads a host type, inside a tagged value or elsewhere. -/
def HostType.read? (insideTagged : Bool) (j : Json) : Option HostType :=
  HostType.readWithin insideTagged (j.depth + 1) j

def HostType.ofJson? (j : Json) : Option HostType :=
  HostType.read? false j

def Position.Kind.toJson : Position.Kind → Json
  | staticField => .obj [("kind", .str "static_field")]
  | instanceField => .obj [("kind", .str "instance_field")]
  | receiver method => .obj [("kind", .str "receiver"), ("method", .str method)]
  | parameter method index =>
    .obj [("kind", .str "parameter"), ("method", .str method), ("index", .ofNat index)]
  | methodReturn method => .obj [("kind", .str "return"), ("method", .str method)]
  | constructorReturn => .obj [("kind", .str "constructor_return")]
  | localVariable => .obj [("kind", .str "local")]
  | cast => .obj [("kind", .str "cast")]
  | binary => .obj [("kind", .str "binary")]
  | nullLiteral => .obj [("kind", .str "null_literal")]
  | newObject => .obj [("kind", .str "new_object")]

def Position.Kind.ofJson? (j : Json) : Option Position.Kind := do
  let (.str tag, rest) ← j.tagged? "kind" | none
  let plain (k : Position.Kind) : Option Position.Kind := if rest.isNoMembers then some k else none
  match tag with
  | "static_field" => plain staticField
  | "instance_field" => plain instanceField
  | "receiver" => do
    let [method] ← rest.record? ["method"] | none
    return receiver (← method.required Json.string?)
  | "parameter" => do
    let [method, index] ← rest.record? ["method", "index"] | none
    return parameter (← method.required Json.string?)
      (← index.required (Json.natBelow? UInt64.size))
  | "return" => do
    let [method] ← rest.record? ["method"] | none
    return methodReturn (← method.required Json.string?)
  | "constructor_return" => plain constructorReturn
  | "local" => plain localVariable
  | "cast" => plain cast
  | "binary" => plain binary
  | "null_literal" => plain nullLiteral
  | "new_object" => plain newObject
  | _ => none

def Marking.toJson (a : Marking) : Json :=
  .obj [("qualifier", a.qualifier.toJson), ("origin", a.origin.toJson)]

def Marking.ofJson? (j : Json) : Option Marking := do
  let [qualifier, origin] ← j.record? ["qualifier", "origin"] | none
  return {
    qualifier := ← qualifier.required Qualifier.ofJson?
    origin := ← origin.required Origin.ofJson? }

def Position.toJson (p : Position) : Json :=
  .obj [("kind", p.kind.toJson), ("host", p.host.toJson),
    ("annotation", .ofOption Marking.toJson p.marking)]

def Position.ofJson? (j : Json) : Option Position := do
  let [kind, host, marking] ← j.record? ["kind", "host", "annotation"] | none
  return {
    kind := ← kind.required Position.Kind.ofJson?
    host := ← host.required HostType.ofJson?
    marking := ← marking.optionalByName Marking.ofJson? }

end Mutability
