import Mutability.Codec.Qualifier
import Mutability.Configuration
import Mutability.Json.Reader

/-!
# Configurations as JSON

Every member may be left out, and is then as in the standard configuration. A member that is given
replaces the standard one as a whole.
-/

namespace Mutability.Configuration

/-- The names of the members, in the order of declaration. -/
def memberNames : List String :=
  ["implicitly_immutable_types", "aliases", "default_qualifier", "object_method_defaults"]

def toJson (c : Configuration) : Json :=
  .obj [("implicitly_immutable_types", .ofList Json.str c.immutableTypes.toList),
    ("aliases", .obj (c.aliases.entries.map fun e => (e.1, e.2.toJson))),
    ("default_qualifier", c.defaultQualifier.toJson),
    ("object_method_defaults", .bool c.objectMethodDefaults)]

def ofJson? (j : Json) : Option Configuration := do
  let [immutableTypes, aliases, defaultQualifier, objectMethodDefaults] ←
    j.record? memberNames | none
  return {
    immutableTypes := ← immutableTypes.withDefault standard.immutableTypes fun j =>
      (j.list? Json.string?).map .ofList
    aliases := ← aliases.withDefault standard.aliases fun j =>
      (j.entries? Qualifier.ofJson?).map .ofList
    defaultQualifier := ←
      defaultQualifier.withDefault standard.defaultQualifier Qualifier.ofJson?
    objectMethodDefaults := ←
      objectMethodDefaults.withDefault standard.objectMethodDefaults Json.bool? }

def ofJsonText? (text : String) : Option Configuration :=
  Json.parse? text >>= ofJson?

end Mutability.Configuration
