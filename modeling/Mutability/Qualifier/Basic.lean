/-!
# Mutability qualifiers

A qualifier says what a reference may do with the object behind it. Besides the four plain
qualifiers there are three polymorphic ones, which stand for the qualifier of a receiver or of a
call, and which are resolved where a member is used.
-/

namespace Mutability

/-- The seven mutability qualifiers. -/
inductive Qualifier
  /-- The object is only read through this reference. -/
  | readonly
  /-- The object may be changed through this reference. -/
  | mutable
  /-- The object is never changed. -/
  | immutable
  /-- The qualifier of the call, chosen at each use. -/
  | polyMutable
  /-- The qualifier of the receiver through which the member is used. -/
  | receiverDependant
  /-- The placeholder of one static call, bound by its arguments. -/
  | substitutable
  /-- The qualifier of no object. -/
  | bottom
deriving DecidableEq, Repr, Inhabited

namespace Qualifier

/-- Every qualifier, in the order in which reports list them. -/
def all : List Qualifier :=
  [readonly, mutable, immutable, polyMutable, receiverDependant, substitutable, bottom]

theorem mem_all (q : Qualifier) : q ∈ all := by
  cases q <;> decide

/-- The name of the annotation, without its mark. -/
def simpleName : Qualifier → String
  | readonly => "Readonly"
  | mutable => "Mutable"
  | immutable => "Immutable"
  | polyMutable => "PolyMutable"
  | receiverDependant => "ReceiverDependantMutable"
  | substitutable => "SubstitutablePolyMutable"
  | bottom => "Bottom"

/-- The annotation as it is written in a program and in messages. -/
def annotationName (q : Qualifier) : String :=
  "@" ++ q.simpleName

instance : ToString Qualifier := ⟨annotationName⟩

/-- Whether the qualifier stands for another one that is known only at a use. -/
def isPolymorphic : Qualifier → Bool
  | polyMutable | receiverDependant | substitutable => true
  | _ => false

end Qualifier

end Mutability
