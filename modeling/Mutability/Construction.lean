import Mutability.Diagnostic
import Mutability.Viewpoint

/-!
# Construction

The rules for declaring a constructor and for creating an object. An `immutable` constructor takes
no `mutable` parameter, since a field of the new object could capture it. An object is created with
the qualifier of its constructor, which is never `readonly`, and the parameters are adapted to that
qualifier.
-/

namespace Mutability.Construction

/-- The qualifiers that a constructor may give to its object. -/
def returnQualifiers : List Qualifier :=
  [.mutable, .immutable, .receiverDependant]

/-- The qualifier as which a parameter can be captured by a constructor with return `ret`. Callers
of an `immutable` constructor bind a polymorphic parameter to `immutable`. -/
def capturedAs (ret declared : Qualifier) : Qualifier :=
  if ret = .immutable ∧ declared = .polyMutable then .immutable else declared

/-- What is wrong with declaring a constructor with this return and these parameters. -/
def declarationDiagnostics (ret : Qualifier) (params : List Qualifier) : List Diagnostic :=
  (if ret ∈ returnQualifiers then []
    else [⟨.constructorInvalid,
      ret.annotationName ++ " is not a valid constructor return qualifier"⟩]) ++
    if ret = .immutable then
      match params.findIdx? fun p => capturedAs ret p = .mutable with
      | some index =>
        [⟨.constructorInvalid,
          "immutable constructor declares a @Mutable parameter at position " ++ index.repr⟩]
      | none => []
    else []

/-- The arguments, numbered from `index` on, that do not fit the parameters as `adapted`. Surplus
arguments or parameters are not looked at. -/
def argumentDiagnostics (adapted : Qualifier → Qualifier) (index : Nat) :
    List Qualifier → List Qualifier → List Diagnostic
  | a :: args, p :: params =>
    (if a ≤ adapted p then [] else [.argument index a (adapted p)]) ++
      argumentDiagnostics adapted (index + 1) args params
  | _, _ => []

/-- What is wrong with creating an object by a constructor declared with `declared` and `params`,
as `requested` if a qualifier is asked for. -/
def invocationDiagnostics (declared : Qualifier) (requested : Option Qualifier)
    (args params : List Qualifier) : List Diagnostic :=
  let invocation := requested.getD declared
  (if invocation = .readonly then
      [⟨.readonlyObjectCreation, "an object cannot be created as @Readonly"⟩] else []) ++
    (if invocation = .readonly ∨ invocation ≠ declared then
      [.incompatible .constructorInvocationInvalid invocation declared] else []) ++
    argumentDiagnostics (Viewpoint.adaptInvocation invocation) 0 args params

end Mutability.Construction
