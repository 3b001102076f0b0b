/-!
# Host types

The types of the host language without their qualifiers: primitive types and their wrapper
classes, declared classes, arrays, type variables and the type of `null`.
-/

namespace Mutability

/-- The primitive types. -/
inductive Primitive
  | boolean | byte | char | short | int | long | float | double
deriving DecidableEq, Repr, Inhabited

namespace Primitive

/-- Every primitive type. -/
def all : List Primitive :=
  [boolean, byte, char, short, int, long, float, double]

/-- The keyword of the type. -/
def name : Primitive → String
  | boolean => "boolean"
  | byte => "byte"
  | char => "char"
  | short => "short"
  | int => "int"
  | long => "long"
  | float => "float"
  | double => "double"

/-- The class whose objects wrap a value of the type. -/
def wrapperName : Primitive → String
  | boolean => "java.lang.Boolean"
  | byte => "java.lang.Byte"
  | char => "java.lang.Character"
  | short => "java.lang.Short"
  | int => "java.lang.Integer"
  | long => "java.lang.Long"
  | float => "java.lang.Float"
  | double => "java.lang.Double"

/-- The primitive type that a class wraps, if it is a wrapper class. -/
def ofWrapperName? (name : String) : Option Primitive :=
  all.find? fun p => p.wrapperName = name

end Primitive

/-- A type of the host language. -/
inductive HostType
  | primitive (kind : Primitive)
  | boxed (kind : Primitive)
  | declared (name : String)
  | array (element : HostType)
  | typeVariable (name : String)
  | null
deriving DecidableEq, Repr, Inhabited

namespace HostType

/-- The type as it is written in a program. -/
def display : HostType → String
  | primitive p => p.name
  | boxed p => p.wrapperName
  | declared name => name
  | array element => element.display ++ "[]"
  | typeVariable name => name
  | null => "null"

instance : ToString HostType := ⟨display⟩

end HostType

end Mutability
