import Mutability.Defaulting
import Mutability.Fault
import Mutability.Validity

/-!
# Policies

A policy is a configuration together with the stages of defaulting in some order. It answers every
question about the qualifier of a single position.
-/

namespace Mutability

/-- A configuration and the stages of defaulting. -/
structure Policy where
  config : Configuration
  stages : List Stage
deriving DecidableEq, Repr

namespace Policy

/-- The policy with the stages in the standard order. -/
def ofConfiguration (c : Configuration) : Policy :=
  ⟨c, Stage.standard⟩

instance : Inhabited Policy := ⟨ofConfiguration .standard⟩

/-- The qualifier that an annotation stands for. -/
def resolve (π : Policy) (text : String) : Except Fault Qualifier :=
  match π.config.resolve text with
  | .ok q => .ok q
  | .error unknown => .error (.unknownQualifier unknown.text)

/-- The qualifier that an annotation stands for, where there may be none. -/
def resolve? (π : Policy) : Option String → Except Fault (Option Qualifier)
  | none => .ok none
  | some text => (π.resolve text).map some

/-- Takes a position through the stages. The results of operators and casts get their qualifier
from operands, so they are made `immutable` once more where only that is possible. -/
def annotate (π : Policy) (p : Position) : Position :=
  let q := Stage.run π.config π.stages p
  if q.kind = .binary ∨ q.kind = .cast then q.coerce π.config else q

/-- The qualifier of a position after defaulting. -/
def qualifierOf (π : Policy) (p : Position) : Except Fault Qualifier :=
  let annotated := π.annotate p
  match annotated.qualifier? with
  | some q => .ok q
  | none => .error (.missingQualifier annotated.kind)

/-- The qualifier of a position without an annotation; the configured one if no stage has any. -/
def defaultQualifier (π : Policy) (kind : Position.Kind) (host : HostType) : Qualifier :=
  (Stage.run π.config π.stages (.bare kind host)).qualifier?.getD π.config.defaultQualifier

/-- The declared qualifier of the target of an assignment. -/
def targetQualifier (π : Policy) (tree : TreeKind) (p : Position) : Except Fault Qualifier :=
  if tree.isTarget then π.qualifierOf p else .error (.unexpectedTarget tree)

/-- Gives a position the qualifier of a value assigned to it. Where only `immutable` is possible
it becomes that. -/
def refine (π : Policy) (p : Position) (proposed : Qualifier) : Position :=
  p.replaceUnlessExplicit
    (if π.config.isImplicitlyImmutable p.host then .immutable else proposed) .refined

/-- The diagnostic for a qualifier written where it can never be legal. -/
def illegality? (π : Policy) (p : Position) : Option Diagnostic :=
  p.illegality? π.config

end Policy

end Mutability
