import Mutability.Collection.OrderedMap
import Mutability.Collection.OrderedSet
import Mutability.HostType
import Mutability.Qualifier.Name

/-!
# Configuration

What a run may be told: which declared classes have objects that can never change, which foreign
annotation names stand for a qualifier, the qualifier of last resort, and whether the methods that
every class inherits have fixed defaults.
-/

namespace Mutability

/-- The settings of a run. -/
structure Configuration where
  /-- Declared classes on which only `immutable` is legal, as on primitive types. -/
  immutableTypes : OrderedSet String
  /-- Foreign annotation names and the qualifiers they stand for. -/
  aliases : OrderedMap String Qualifier
  /-- The qualifier of a position about which nothing else is known. -/
  defaultQualifier : Qualifier
  /-- Whether `toString`, `hashCode`, `equals` and `clone` have fixed defaults. -/
  objectMethodDefaults : Bool
deriving DecidableEq, Repr

namespace Configuration

/-- The settings of a run that is told nothing. -/
def standard : Configuration where
  immutableTypes := .ofList
    ["java.lang.String", "java.lang.Number", "java.math.BigInteger", "java.math.BigDecimal",
      "java.lang.Class", "java.lang.Enum"]
  aliases := .ofList [("org.jmlspecs.annotation.Readonly", .readonly)]
  defaultQualifier := .mutable
  objectMethodDefaults := true

instance : Inhabited Configuration := ⟨standard⟩

/-- Whether a value of this type can never change: primitive types, their wrapper classes and the
configured classes. -/
def isImplicitlyImmutable (c : Configuration) : HostType → Bool
  | .primitive _ | .boxed _ => true
  | .declared name => (Primitive.ofWrapperName? name).isSome || c.immutableTypes.contains name
  | .array _ | .typeVariable _ | .null => false

/-- The qualifier that an annotation stands for under this configuration. The aliases come first;
a name that stands for nothing is reported without the blanks and marks around it. -/
def resolve (c : Configuration) (text : String) : Except Qualifier.UnknownName Qualifier :=
  let name := String.ofList (Qualifier.bare text.toList)
  match c.aliases.get? name with
  | some q => .ok q
  | none => Qualifier.parse name

end Configuration

end Mutability
