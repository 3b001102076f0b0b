import Mutability.Qualifier.Order

/-!
# Initialization states

Beside its mutability an object has a state of initialization. While it is built it is initialized
down to some depth of its class hierarchy, known exactly (`underInitialization`) or as a lower
bound (`unknownInitialization`). A state with a greater bound is below one with a smaller bound.
`ObjectState` pairs the two hierarchies and relates them componentwise; an `AnyQualifier` comes
from one of them, and qualifiers of different hierarchies cannot be related.
-/

namespace Mutability

/-- How far an object is initialized. -/
inductive InitState
  | initialized
  | underInitialization (depth : UInt32)
  | unknownInitialization (depth : UInt32)
  | bottom
deriving DecidableEq, Repr, Inhabited

namespace InitState

/-- Whether an object in state `a` may be used where state `b` is asked for. -/
def le : InitState → InitState → Bool
  | bottom, _ => true
  | _, bottom => false
  | initialized, initialized => true
  | initialized, unknownInitialization _ => true
  | underInitialization m, underInitialization n => m == n
  | underInitialization m, unknownInitialization n => n ≤ m
  | unknownInitialization m, unknownInitialization n => n ≤ m
  | _, _ => false

instance : LE InitState := ⟨fun a b => a.le b = true⟩

instance decidableLE (a b : InitState) : Decidable (a ≤ b) :=
  inferInstanceAs (Decidable (a.le b = true))

/-- The depth down to which the object is surely initialized. -/
def depth : InitState → UInt32
  | underInitialization n | unknownInitialization n => n
  | initialized | bottom => 0xFFFFFFFF

/-- The least state above both. -/
def join : InitState → InitState → InitState
  | bottom, b => b
  | a, bottom => a
  | a, b =>
    if a = b then a
    else unknownInitialization (if a.depth ≤ b.depth then a.depth else b.depth)

/-- The state as it is named in messages. -/
def display : InitState → String
  | initialized => "Initialized"
  | underInitialization n => "UnderInitialization(" ++ n.toNat.repr ++ ")"
  | unknownInitialization n => "UnknownInitialization(" ++ n.toNat.repr ++ ")"
  | bottom => "Bottom"

end InitState

/-- The mutability and the state of initialization of an object. -/
structure ObjectState where
  mutability : Qualifier
  initialization : InitState
deriving DecidableEq, Repr, Inhabited

namespace ObjectState

/-- The componentwise order. -/
def le (a b : ObjectState) : Bool :=
  a.mutability.le b.mutability && a.initialization.le b.initialization

instance : LE ObjectState := ⟨fun a b => a.le b = true⟩

instance decidableLE (a b : ObjectState) : Decidable (a ≤ b) :=
  inferInstanceAs (Decidable (a.le b = true))

/-- The componentwise join. -/
def join (a b : ObjectState) : ObjectState :=
  ⟨a.mutability.join b.mutability, a.initialization.join b.initialization⟩

/-- The join of a list, from left to right; the empty list has none. -/
def joinAll? : List ObjectState → Option ObjectState
  | [] => none
  | a :: rest => some (rest.foldl join a)

end ObjectState

/-- A qualifier of one of the two hierarchies. -/
inductive AnyQualifier
  | mutability (q : Qualifier)
  | initialization (s : InitState)
deriving DecidableEq, Repr, Inhabited

end Mutability
