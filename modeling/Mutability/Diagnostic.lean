import Mutability.Qualifier.Basic

/-!
# Diagnostics

What the checker has to say about a program. The kind decides the message key under which a
diagnostic is shown; two kinds share a key.
-/

namespace Mutability

/-- The kinds of diagnostics. -/
inductive Diagnostic.Kind
  | invalidCastQualifier
  | typeInvalid
  | illegalWrite
  | assignmentTypeIncompatible
  | constructorInvalid
  | constructorInvocationInvalid
  | readonlyObjectCreation
  | argumentTypeIncompatible
  | returnTypeIncompatible
  | methodInvocationInvalid
deriving DecidableEq, Repr, Inhabited

namespace Diagnostic.Kind

/-- Every kind. -/
def all : List Kind :=
  [invalidCastQualifier, typeInvalid, illegalWrite, assignmentTypeIncompatible, constructorInvalid,
    constructorInvocationInvalid, readonlyObjectCreation, argumentTypeIncompatible,
    returnTypeIncompatible, methodInvocationInvalid]

/-- The name of the kind in reports. -/
def name : Kind → String
  | invalidCastQualifier => "invalid-cast-qualifier"
  | typeInvalid => "type-invalid"
  | illegalWrite => "illegal-write"
  | assignmentTypeIncompatible => "assignment-type-incompatible"
  | constructorInvalid => "constructor-invalid"
  | constructorInvocationInvalid => "constructor-invocation-invalid"
  | readonlyObjectCreation => "readonly-object-creation"
  | argumentTypeIncompatible => "argument-type-incompatible"
  | returnTypeIncompatible => "return-type-incompatible"
  | methodInvocationInvalid => "method-invocation-invalid"

/-- The message key under which the kind is shown. -/
def key : Kind → String
  | invalidCastQualifier | typeInvalid => "type.invalid"
  | illegalWrite => "illegal.write"
  | assignmentTypeIncompatible => "assignment.type.incompatible"
  | constructorInvalid => "constructor.invalid"
  | constructorInvocationInvalid => "constructor.invocation.invalid"
  | readonlyObjectCreation => "pico.new"
  | argumentTypeIncompatible => "argument.type.incompatible"
  | returnTypeIncompatible => "return.type.incompatible"
  | methodInvocationInvalid => "method.invocation.invalid"

end Diagnostic.Kind

/-- A finding about a program. -/
structure Diagnostic where
  kind : Diagnostic.Kind
  message : String
deriving DecidableEq, Repr, Inhabited

namespace Diagnostic

/-- The finding as it is shown: the key in parentheses and the message. -/
def display (d : Diagnostic) : String :=
  "(" ++ d.kind.key ++ ") " ++ d.message

/-- A qualifier was found where another one is required. -/
def incompatible (kind : Kind) (found required : Qualifier) : Diagnostic :=
  ⟨kind, "found " ++ found.annotationName ++ ", required " ++ required.annotationName⟩

/-- The argument at `index` has a qualifier that its parameter does not accept. -/
def argument (index : Nat) (found required : Qualifier) : Diagnostic :=
  ⟨.argumentTypeIncompatible,
    "argument " ++ index.repr ++ ": found " ++ found.annotationName ++ ", required " ++
      required.annotationName⟩

end Diagnostic

end Mutability
