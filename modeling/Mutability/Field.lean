import Mutability.Diagnostic
import Mutability.Viewpoint

/-!
# Fields

Whether a field may be written depends on its category, which is fixed where it is declared: any
receiver, only the constructors of its class, or only a receiver that makes a dependant member
`mutable`. Apart from that the written value has to fit the field as it is seen through the
receiver; a write may fail on both counts.
-/

namespace Mutability

/-- When a field may be written. -/
inductive Assignability
  /-- Through any receiver. -/
  | assignable
  /-- Only while a constructor of the class runs. -/
  | finalUnassignable
  /-- Through a receiver that permits mutation. -/
  | receiverDependantAssignable
deriving DecidableEq, Repr, Inhabited

namespace Assignability

/-- Every category. -/
def all : List Assignability :=
  [assignable, finalUnassignable, receiverDependantAssignable]

/-- The category as it is written in reports. -/
def name : Assignability → String
  | assignable => "assignable"
  | finalUnassignable => "final_unassignable"
  | receiverDependantAssignable => "receiver_dependant_assignable"

/-- The category as it is named in messages. -/
def display : Assignability → String
  | assignable => "Assignable"
  | finalUnassignable => "FinalUnassignable"
  | receiverDependantAssignable => "ReceiverDependantAssignable"

/-- The category that the modifiers of a declaration give; `final` comes first. -/
def ofModifiers (isFinal isAssignable : Bool) : Assignability :=
  if isFinal then finalUnassignable
  else if isAssignable then assignable
  else receiverDependantAssignable

end Assignability

/-- What the rules know about a field. -/
structure Field where
  name : String
  declared : Qualifier
  assignability : Assignability
  isStatic : Bool
deriving DecidableEq, Repr, Inhabited

namespace Field

/-- The field of a declaration. A field has no call to be polymorphic in, so `polyMutable` is read
as `receiverDependant`. -/
def ofDeclaration (name : String) (q : Qualifier) (assignability : Assignability)
    (isStatic : Bool) : Field where
  name := name
  declared := if q = .polyMutable then .receiverDependant else q
  assignability := assignability
  isStatic := isStatic

/-- The qualifier of the field, seen through a receiver. -/
def viewedThrough (f : Field) (receiver : Qualifier) : Qualifier :=
  Viewpoint.adapt receiver f.declared

/-- Whether each constructor has to set the field. -/
def hasInvariant (f : Field) : Bool :=
  (f.declared == .immutable || f.declared == .receiverDependant) &&
    f.assignability != .assignable

/-- The qualifier against which the setting of fields is tracked. -/
def invariantQualifier : Qualifier := .immutable

/-- Whether a dependant member becomes `mutable` through this receiver. -/
def permitsMutation (receiver : Qualifier) : Bool :=
  Viewpoint.adapt receiver .receiverDependant == .mutable

/-- Whether the field may be written through a receiver. A static field belongs to no object, so
any receiver will do. -/
def canAssign (f : Field) (receiver : Qualifier) (inConstructor : Bool) : Bool :=
  match f.assignability with
  | .assignable => true
  | .finalUnassignable => inConstructor
  | .receiverDependantAssignable => f.isStatic || permitsMutation receiver

/-- The receiver through which a write is judged: a static field is seen through none. -/
def effectiveReceiver (f : Field) (receiver : Qualifier) : Qualifier :=
  if f.isStatic then .mutable else receiver

/-- The finding about a field that may not be written through a receiver. -/
def illegalWrite (f : Field) (receiver : Qualifier) : Diagnostic :=
  ⟨.illegalWrite, "cannot write field " ++ f.name ++ " (" ++ f.assignability.display ++
    ") through a " ++ receiver.annotationName ++ " receiver"⟩

/-- What is wrong with writing a value to the field through a receiver. -/
def writeDiagnostics (f : Field) (receiver : Qualifier) (inConstructor : Bool)
    (value : Qualifier) : List Diagnostic :=
  let r := f.effectiveReceiver receiver
  let required := f.viewedThrough r
  (if f.canAssign r inConstructor then [] else [f.illegalWrite r]) ++
    if value ≤ required then []
    else [.incompatible .assignmentTypeIncompatible value required]

end Field

end Mutability
