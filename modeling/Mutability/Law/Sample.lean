import Mutability.Law.Basic

/-!
# Trying laws on samples

A law is tried on samples from any source of them. A sample about which the law says nothing is
dropped; ten draws are made for each sample that is asked for, at most. The samples of
`Law.verifyAll` are drawn by a linear congruential generator from a fixed seed, so that a run can be
repeated.
-/

namespace Mutability

namespace Sample

/-- Draws up to `draws` samples until `wanted` of them have passed: how many have, or the first on
which the law fails. -/
def tryOn {σ α : Type} (draw : StateM σ α) (judge : α → Option Bool) (wanted : Nat) :
    Nat → Nat → σ → Except α Nat
  | 0, passed, _ => .ok passed
  | draws + 1, passed, source =>
    if wanted ≤ passed then .ok passed
    else
      let (a, source) := draw.run source
      match judge a with
      | some true => tryOn draw judge wanted draws (passed + 1) source
      | some false => .error a
      | none => tryOn draw judge wanted draws passed source

/-- The outcome of trying a law on samples. -/
def verdict {σ α : Type} (name : String) (draw : StateM σ α) (source : σ)
    (judge : α → Option Bool) (describe : α → String) (tests : Nat) : Verdict :=
  match tryOn draw judge tests (10 * tests) 0 source with
  | .ok passed => ⟨name, .sampled passed, none⟩
  | .error a => ⟨name, .sampled tests, some (describe a)⟩

/-- The qualifiers of a signature and of its arguments. -/
def describe (s : Signature) (args : List Qualifier) : String :=
  "(" ++ ", ".intercalate ((s.qualifiers ++ args).map Qualifier.simpleName) ++ ")"

/-- The outcomes of the laws about signatures, each tried from the same state of the source. -/
def verdicts {σ : Type} (signature : StateM σ Signature)
    (call : StateM σ (Signature × List Qualifier)) (source : σ) (tests : Nat) : List Verdict :=
  [ verdict "static_substitution_all_or_nothing" signature source
      (fun s => some (Law.substitutesAllOrNothing s)) (fun s => describe s []) tests,
    verdict "static_binding_uniform" call source (fun c => Law.bindsUniformly c.1 c.2)
      (fun c => describe c.1 c.2) tests ]

/-! ## Random samples -/

/-- A computation that draws random numbers. -/
abbrev Draw := StateM UInt64

/-- A number below `n`. -/
def below (n : Nat) : Draw Nat := do
  let seed ← get
  let seed := seed * 6364136223846793005 + 1442695040888963407
  set seed
  return (seed >>> 33).toNat % n

/-- Any qualifier. -/
def qualifier : Draw Qualifier := do
  let i ← below 7
  return Qualifier.all[i]?.getD .readonly

/-- A list of this many qualifiers. -/
def qualifiers : Nat → Draw (List Qualifier)
  | 0 => return []
  | n + 1 => do
    let q ← qualifier
    let rest ← qualifiers n
    return q :: rest

/-- A static signature with up to five parameters. -/
def signature : Draw Signature := do
  let arity ← below 6
  let params ← qualifiers arity
  let ret ← qualifier
  return ⟨"m", true, none, params, ret⟩

/-- A static signature and arguments for it, often more than enough. -/
def call : Draw (Signature × List Qualifier) := do
  let s ← signature
  let n ← below 100
  let args ← qualifiers n
  return (s, args)

end Sample

/-- Tries every law, those about signatures on this many samples. -/
def Law.verifyAll (tests : Nat) : List Verdict :=
  Law.all.map Law.verdict ++ Sample.verdicts Sample.signature Sample.call 20 tests

end Mutability
