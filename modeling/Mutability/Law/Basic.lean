import Mutability.Policy
import Mutability.Viewpoint

/-!
# Laws

The laws on which the rules rest, as tests that can be run. The qualifiers are finitely many, so
most laws are tried on every combination of inputs; those about signatures of any length are tried
on samples. A law that fails is reported with the first input on which it does.
-/

namespace Mutability

/-- How a law was tried. -/
inductive Verdict.Method
  /-- On every combination of inputs. -/
  | exhaustive
  /-- On this many samples. -/
  | sampled (tests : Nat)
deriving DecidableEq, Repr, Inhabited

/-- The outcome of trying a law. -/
structure Verdict where
  property : String
  method : Verdict.Method
  /-- The first input on which the law fails. -/
  counterexample : Option String
deriving DecidableEq, Repr, Inhabited

/-- Whether no input was found on which the law fails. -/
def Verdict.isProven (v : Verdict) : Bool :=
  v.counterexample.isNone

/-- A law that is tried on every combination of inputs. -/
structure Law where
  name : String
  /-- The first input on which the law fails. -/
  counterexample : Option String
deriving Repr

namespace Law

/-- The outcome of trying a law. -/
def verdict (l : Law) : Verdict :=
  ⟨l.name, .exhaustive, l.counterexample⟩

/-! ## Inputs -/

/-- Every pair of qualifiers. -/
def pairs : List (Qualifier × Qualifier) :=
  Qualifier.all.flatMap fun a => Qualifier.all.map fun b => (a, b)

/-- Every triple of qualifiers. -/
def triples : List (Qualifier × Qualifier × Qualifier) :=
  pairs.flatMap fun p => Qualifier.all.map fun c => (p.1, p.2, c)

/-- The law that something holds of every input of a list. -/
def forAll {α : Type} (name : String) (inputs : List α) (describe : α → String)
    (holds : α → Bool) : Law :=
  ⟨name, (inputs.find? fun a => !holds a).map describe⟩

/-- A law about every qualifier. -/
def forEach (name : String) (holds : Qualifier → Bool) : Law :=
  forAll name Qualifier.all Qualifier.simpleName holds

/-- A law about every pair of qualifiers. -/
def forPairs (name : String) (holds : Qualifier → Qualifier → Bool) : Law :=
  forAll name pairs (fun p => "(" ++ p.1.simpleName ++ ", " ++ p.2.simpleName ++ ")")
    fun p => holds p.1 p.2

/-- A law about every triple of qualifiers. -/
def forTriples (name : String) (holds : Qualifier → Qualifier → Qualifier → Bool) : Law :=
  forAll name triples
    (fun t => "(" ++ t.1.simpleName ++ ", " ++ t.2.1.simpleName ++ ", " ++ t.2.2.simpleName ++ ")")
    fun t => holds t.1 t.2.1 t.2.2

/-! ## The laws -/

/-- The types on which refinement is tried. -/
def hosts : List HostType :=
  [.primitive .int, .boxed .boolean, .declared "java.lang.String", .declared "java.lang.Object"]

/-- Refining by a value twice is as good as once, and a type whose values can never change stays
`immutable`. -/
def refinementHolds (host : HostType) (q : Qualifier) : Bool :=
  let π := Policy.ofConfiguration .standard
  let once := π.refine (.bare .localVariable host) q
  let twice := π.refine once q
  (!π.config.isImplicitlyImmutable host || once.qualifier? == some .immutable) && once == twice

/-- The laws that are tried on every combination of inputs. -/
def all : List Law :=
  [ forEach "subtype_reflexive" fun a => a.le a,
    forPairs "subtype_antisymmetric" fun a b => !(a.le b && b.le a) || a == b,
    forTriples "subtype_transitive" fun a b c => !(a.le b && b.le c) || a.le c,
    forTriples "lub_least_upper_bound" fun a b c =>
      a.le (a.join b) && b.le (a.join b) && (!(a.le c && b.le c) || (a.join b).le c),
    forTriples "glb_greatest_lower_bound" fun a b c =>
      (a.meet b).le a && (a.meet b).le b && (!(c.le a && c.le b) || c.le (a.meet b)),
    forPairs "lub_glb_commutative" fun a b => a.join b == b.join a && a.meet b == b.meet a,
    forTriples "lub_glb_associative" fun a b c =>
      (a.join b).join c == a.join (b.join c) && (a.meet b).meet c == a.meet (b.meet c),
    forEach "lub_glb_idempotent" fun a => a.join a == a && a.meet a == a,
    forPairs "absorption" fun a b => a.join (a.meet b) == a && a.meet (a.join b) == a,
    forEach "bounded" fun a => Qualifier.bottom.le a && a.le .readonly,
    forAll "fixed_members_ignore_receiver"
      (pairs.filter fun p => p.2 ∈ [.mutable, .immutable, .readonly, .bottom])
      (fun p => "(" ++ p.1.simpleName ++ ", " ++ p.2.simpleName ++ ")")
      fun p => Viewpoint.adapt p.1 p.2 == p.2,
    forEach "receiver_dependant_adopts_receiver" fun r =>
      Viewpoint.adapt r .receiverDependant == r,
    forTriples "adaptation_monotone" fun r₁ r₂ d =>
      !r₁.le r₂ || (Viewpoint.adapt r₁ d).le (Viewpoint.adapt r₂ d),
    forAll "refinement_implicit_immutability"
      (hosts.flatMap fun h => Qualifier.all.map fun q => (h, q))
      (fun p => "(" ++ p.1.display ++ ", " ++ p.2.simpleName ++ ")")
      fun p => refinementHolds p.1 p.2 ]

/-! ## Laws about signatures -/

/-- The placeholder takes the place of `polyMutable` everywhere or nowhere, and nothing else
changes. -/
def substitutesAllOrNothing (s : Signature) : Bool :=
  let resolved := s.substituteStatic
  ((s.ret, resolved.ret) :: s.params.zip resolved.params).all fun p =>
    if p.1 = .polyMutable ∧ s.ret = .polyMutable then p.2 == .substitutable else p.2 == p.1

/-- Every placeholder of a call is bound to the same qualifier, which is above every argument
passed for it. Nothing is said about a call with too few arguments. -/
def bindsUniformly (s : Signature) (args : List Qualifier) : Option Bool :=
  if args.length < s.params.length then none
  else
    let resolved := s.substituteStatic
    let bound := resolved.bind args
    let uniform := (resolved.params.zip bound.signature.params).all fun p =>
      p.1 != .substitutable || p.2 == bound.qualifier
    let accepting := (resolved.params.zip args).all fun p =>
      p.1 != .substitutable || p.2.le bound.qualifier
    some (uniform && accepting)

/-- The simpler qualifiers to which a failing argument may be reduced. -/
def simpler (q : Qualifier) : List Qualifier :=
  if q = .readonly then [] else [.readonly]

end Law

end Mutability
