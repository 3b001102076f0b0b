import Mutability.Qualifier.Order

/-!
# Viewpoint adaptation

A member declared once is used through many receivers. `adapt` gives the qualifier of a field seen
through a receiver, `adaptInvocation` that of the types in a method's signature, where the
polymorphic qualifier follows the receiver too. A static method has no receiver: its polymorphic
types become one placeholder, which `Signature.bind` resolves to the join of the arguments that are
passed for it.
-/

namespace Mutability

namespace Viewpoint

/-- The qualifier of a member declared `declared`, seen through `receiver`. -/
def adapt (receiver declared : Qualifier) : Qualifier :=
  if declared = .receiverDependant then receiver else declared

/-- The qualifier of a type in a signature when the method is called through `receiver`. -/
def adaptInvocation (receiver declared : Qualifier) : Qualifier :=
  if declared = .receiverDependant ∨ declared = .polyMutable then receiver else declared

end Viewpoint

/-- The qualifiers of a method. -/
structure Signature where
  name : String
  isStatic : Bool
  receiver : Option Qualifier
  params : List Qualifier
  ret : Qualifier
deriving DecidableEq, Repr

namespace Signature

/-- Every qualifier of the signature: the return, the receiver if there is one, the parameters. -/
def qualifiers (s : Signature) : List Qualifier :=
  s.ret :: s.receiver.toList ++ s.params

/-- A polymorphic type becomes the placeholder; every other type stays. -/
def toPlaceholder (q : Qualifier) : Qualifier :=
  if q = .polyMutable then .substitutable else q

/-- The signature of a static method at a call. A polymorphic return turns the return and every
polymorphic parameter into the placeholder; with any other return nothing changes. -/
def substituteStatic (s : Signature) : Signature :=
  if s.ret = .polyMutable then
    { s with ret := .substitutable, params := s.params.map toPlaceholder }
  else s

/-- The signature as it is seen where the method is used, through `receiver` if there is one. -/
def seenFrom (s : Signature) (receiver : Option Qualifier) : Signature :=
  if s.isStatic then s.substituteStatic
  else match receiver with
    | none => s
    | some r =>
      { s with
        receiver := s.receiver.map (Viewpoint.adaptInvocation r)
        params := s.params.map (Viewpoint.adaptInvocation r)
        ret := Viewpoint.adaptInvocation r s.ret }

/-- A signature whose placeholders are resolved, with the qualifier they are resolved to. -/
structure Bound where
  qualifier : Qualifier
  signature : Signature
deriving DecidableEq, Repr

/-- The arguments that are passed for the placeholder. -/
def placeholderArguments (params arguments : List Qualifier) : List Qualifier :=
  ((params.zip arguments).filter fun p => p.1 = .substitutable).map Prod.snd

/-- Resolves a placeholder to `b`; every other type stays. -/
def ofPlaceholder (b q : Qualifier) : Qualifier :=
  if q = .substitutable then b else q

/-- Resolves every placeholder of a call to the join of the arguments that are passed for it. -/
def bind (s : Signature) (arguments : List Qualifier) : Bound :=
  let b := Qualifier.joinAll (placeholderArguments s.params arguments)
  { qualifier := b
    signature :=
      { s with
        receiver := s.receiver.map (ofPlaceholder b)
        params := s.params.map (ofPlaceholder b)
        ret := ofPlaceholder b s.ret } }

end Signature

end Mutability
