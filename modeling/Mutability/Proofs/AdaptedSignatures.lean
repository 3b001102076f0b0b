import Mutability.Proofs.Views

/-!
# Signatures seen through several receivers

In a body the qualifier of a receiver may itself be known only where the member is used, so that a
signature which has been adapted once is adapted again. Adapting it twice is adapting it once,
through the first receiver as the second one sees it (`Signature.seenFrom_seenFrom`). After a
receiver that follows no other one, nothing is left to adapt (`Signature.seenFrom_of_fixed`). A
receiver with a smaller qualifier gives a signature that is smaller at every place
(`Signature.seenFrom_mono`).

All of this holds of a single qualifier, and is carried over to the return, the receiver and the
parameters by `Signature.mapQualifiers`.
-/

namespace Mutability

namespace Viewpoint

theorem adaptInvocation_adaptInvocation (r₁ r₂ q : Qualifier) :
    adaptInvocation r₂ (adaptInvocation r₁ q) = adaptInvocation (adaptInvocation r₂ r₁) q := by
  by_cases hq : q.FollowsReceiver
  · rw [adaptInvocation_of_followsReceiver hq, adaptInvocation_of_followsReceiver hq]
  · rw [adaptInvocation_of_not_followsReceiver hq, adaptInvocation_of_not_followsReceiver hq,
      adaptInvocation_of_not_followsReceiver hq]

theorem adaptInvocation_mono {r₁ r₂ : Qualifier} (h : r₁ ≤ r₂) (q : Qualifier) :
    adaptInvocation r₁ q ≤ adaptInvocation r₂ q := by
  by_cases hq : q.FollowsReceiver
  · rw [adaptInvocation_of_followsReceiver hq, adaptInvocation_of_followsReceiver hq]
    exact h
  · rw [adaptInvocation_of_not_followsReceiver hq, adaptInvocation_of_not_followsReceiver hq]
    exact Qualifier.le_refl q

theorem not_followsReceiver_adaptInvocation {r : Qualifier} (hr : ¬ r.FollowsReceiver)
    (q : Qualifier) : ¬ (adaptInvocation r q).FollowsReceiver := by
  by_cases hq : q.FollowsReceiver
  · rw [adaptInvocation_of_followsReceiver hq]
    exact hr
  · rw [adaptInvocation_of_not_followsReceiver hq]
    exact hq

end Viewpoint

namespace Signature

/-- Every qualifier of `s` is below the one at the same place of `t`. -/
structure Below (s t : Signature) : Prop where
  ret : s.ret ≤ t.ret
  receiver : Option.Rel (· ≤ ·) s.receiver t.receiver
  params : List.Forall₂ (· ≤ ·) s.params t.params

/-! ## Changing every qualifier -/

variable {s : Signature} {f g : Qualifier → Qualifier}

theorem qualifiers_mapQualifiers (f : Qualifier → Qualifier) (s : Signature) :
    (s.mapQualifiers f).qualifiers = s.qualifiers.map f := by
  unfold qualifiers mapQualifiers
  cases s.receiver <;> simp

theorem mapQualifiers_mapQualifiers (f g : Qualifier → Qualifier) (s : Signature) :
    (s.mapQualifiers f).mapQualifiers g = s.mapQualifiers (g ∘ f) := by
  simp [mapQualifiers]

theorem below_mapQualifiers (h : ∀ q, f q ≤ g q) (s : Signature) :
    (s.mapQualifiers f).Below (s.mapQualifiers g) where
  ret := h s.ret
  receiver := by
    show Option.Rel _ (s.receiver.map f) (s.receiver.map g)
    cases s.receiver with
    | none => exact .none
    | some q => exact .some (h q)
  params := by
    show List.Forall₂ _ (s.params.map f) (s.params.map g)
    rw [List.forall₂_map_left_iff, List.forall₂_map_right_iff, List.forall₂_same]
    exact fun q _ => h q

/-! ## Receivers -/

theorem seenFrom_seenFrom (hs : s.isStatic = false) (r₁ r₂ : Qualifier) :
    (s.seenFrom (some r₁)).seenFrom (some r₂) =
      s.seenFrom (some (Viewpoint.adaptInvocation r₂ r₁)) := by
  have hs' : (s.mapQualifiers (Viewpoint.adaptInvocation r₁)).isStatic = false := hs
  rw [seenFrom_of_not_static hs, seenFrom_of_not_static hs', seenFrom_of_not_static hs,
    mapQualifiers_mapQualifiers]
  congr 1
  funext q
  exact Viewpoint.adaptInvocation_adaptInvocation r₁ r₂ q

theorem not_followsReceiver_of_mem_seenFrom (hs : s.isStatic = false) {r q : Qualifier}
    (hr : ¬ r.FollowsReceiver) (hq : q ∈ (s.seenFrom (some r)).qualifiers) :
    ¬ q.FollowsReceiver := by
  rw [seenFrom_of_not_static hs, qualifiers_mapQualifiers] at hq
  obtain ⟨q', -, rfl⟩ := List.mem_map.1 hq
  exact Viewpoint.not_followsReceiver_adaptInvocation hr q'

/-- Through a receiver that follows no other one, a signature is seen once and for all. -/
theorem seenFrom_of_fixed (hs : s.isStatic = false) {r : Qualifier} (hr : ¬ r.FollowsReceiver)
    (next : Option Qualifier) : (s.seenFrom (some r)).seenFrom next = s.seenFrom (some r) := by
  cases next with
  | none =>
    have hs' : (s.seenFrom (some r)).isStatic = false := by
      rw [seenFrom_of_not_static hs]
      exact hs
    rw [seenFrom, if_neg (by rw [hs']; decide)]
  | some r' =>
    rw [seenFrom_seenFrom hs, Viewpoint.adaptInvocation_of_not_followsReceiver hr]

theorem seenFrom_mono (hs : s.isStatic = false) {r₁ r₂ : Qualifier} (h : r₁ ≤ r₂) :
    (s.seenFrom (some r₁)).Below (s.seenFrom (some r₂)) := by
  rw [seenFrom_of_not_static hs, seenFrom_of_not_static hs]
  exact below_mapQualifiers (Viewpoint.adaptInvocation_mono h) s

end Signature

/-- A signature that is not static and is seen through one receiver after another is seen through
the first one as the second one sees it; so it stays as it is after a receiver that follows no other
one. A smaller receiver gives a signature that is smaller at every place. Only the qualifiers
change. -/
theorem adaptation_composes (s : Signature) (hs : s.isStatic = false) (r₁ r₂ : Qualifier) :
    (s.seenFrom (some r₁)).seenFrom (some r₂) =
      s.seenFrom (some (Viewpoint.adaptInvocation r₂ r₁)) ∧
    (r₁ ≠ .polyMutable → r₁ ≠ .receiverDependant →
      .polyMutable ∉ (s.seenFrom (some r₁)).qualifiers ∧
      .receiverDependant ∉ (s.seenFrom (some r₁)).qualifiers ∧
      ∀ next, (s.seenFrom (some r₁)).seenFrom next = s.seenFrom (some r₁)) ∧
    (r₁ ≤ r₂ → (s.seenFrom (some r₁)).Below (s.seenFrom (some r₂))) ∧
    (s.seenFrom (some r₁)).name = s.name ∧
    (s.seenFrom (some r₁)).isStatic = false ∧
    (s.seenFrom (some r₁)).params.length = s.params.length ∧
    (s.seenFrom (some r₁)).receiver.isSome = s.receiver.isSome := by
  have hseen := Signature.seenFrom_of_not_static hs r₁
  refine ⟨Signature.seenFrom_seenFrom hs r₁ r₂, fun hpoly hdep => ?_,
    Signature.seenFrom_mono hs, ?_, ?_, Checker.length_seenFrom s _, ?_⟩
  · have hfixed : ¬ r₁.FollowsReceiver := by
      rintro (h | h)
      · exact hdep h
      · exact hpoly h
    have hleft := fun q => Signature.not_followsReceiver_of_mem_seenFrom (q := q) hs hfixed
    exact ⟨fun h => hleft _ h (Or.inr rfl), fun h => hleft _ h (Or.inl rfl),
      Signature.seenFrom_of_fixed hs hfixed⟩
  · rw [hseen]
    rfl
  · rw [hseen]
    exact hs
  · rw [hseen]
    exact Option.isSome_map

/-- A method whose receiver, first parameter and return follow the receiver. -/
def swapSignature : Signature :=
  ⟨"swap", false, some .receiverDependant, [.polyMutable, .immutable, .readonly], .polyMutable⟩

/-- Called in a body through a receiver that is itself `receiverDependant`, and that body through a
`mutable` one, it is the method of a `mutable` object; through a `readonly` one its return is
larger. -/
theorem adaptation_composes_swapSignature :
    (swapSignature.seenFrom (some .receiverDependant)).seenFrom (some .mutable) =
      ⟨"swap", false, some .mutable, [.mutable, .immutable, .readonly], .mutable⟩ ∧
    (∀ next, (swapSignature.seenFrom (some .mutable)).seenFrom next =
      swapSignature.seenFrom (some .mutable)) ∧
    (swapSignature.seenFrom (some .mutable)).Below (swapSignature.seenFrom (some .readonly)) ∧
    ¬ (swapSignature.seenFrom (some .readonly)).Below (swapSignature.seenFrom (some .mutable)) := by
  obtain ⟨hcompose, -⟩ := adaptation_composes swapSignature rfl .receiverDependant .mutable
  obtain ⟨-, hfixed, hmono, -⟩ := adaptation_composes swapSignature rfl .mutable .readonly
  refine ⟨hcompose.trans (by decide), (hfixed (by decide) (by decide)).2.2, hmono (by decide), ?_⟩
  intro h
  exact absurd h.ret (by decide)

end Mutability
