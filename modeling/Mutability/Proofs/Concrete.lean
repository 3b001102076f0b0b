import Mutability.Proofs.ImplicitImmutability

/-!
# Rules and the placeholder

Where a static method with a polymorphic return is called, its polymorphic types become one
placeholder, and `Signature.bind` resolves it to the join of the arguments that are passed for it.
Nothing else makes a placeholder: it cannot be written without being reported, no stage gives it by
default, and neither a join nor a view through a receiver is one unless a part of it is. After
`bind` none is left, and the signature is that of `Signature.instantiate`, which is said without a
placeholder.
-/

namespace Mutability

/-! ## Joins -/

namespace Qualifier

theorem join_ne_substitutable {a b : Qualifier} :
    a ≠ substitutable → b ≠ substitutable → join a b ≠ substitutable := by
  cases a <;> cases b <;> decide

theorem foldl_join_ne_substitutable {qs : List Qualifier} (h : ∀ q ∈ qs, q ≠ substitutable)
    {a : Qualifier} (ha : a ≠ substitutable) : qs.foldl join a ≠ substitutable := by
  induction qs generalizing a with
  | nil => exact ha
  | cons q rest ih =>
    have hq := h q List.mem_cons_self
    have hrest : ∀ q ∈ rest, q ≠ substitutable := fun q' hq' => h q' (List.mem_cons_of_mem q hq')
    exact ih hrest (join_ne_substitutable ha hq)

theorem joinAll_ne_substitutable {qs : List Qualifier} (h : ∀ q ∈ qs, q ≠ substitutable) :
    joinAll qs ≠ substitutable :=
  foldl_join_ne_substitutable h (by decide)

end Qualifier

theorem Viewpoint.adapt_ne_substitutable {r q : Qualifier} (hr : r ≠ .substitutable)
    (hq : q ≠ .substitutable) : Viewpoint.adapt r q ≠ .substitutable := by
  unfold adapt
  split
  · exact hr
  · exact hq

theorem Viewpoint.adaptInvocation_ne_substitutable {r q : Qualifier} (hr : r ≠ .substitutable)
    (hq : q ≠ .substitutable) : Viewpoint.adaptInvocation r q ≠ .substitutable := by
  unfold adaptInvocation
  split
  · exact hr
  · exact hq

/-! ## Positions -/

/-- The position has no placeholder. -/
def Position.Concrete (p : Position) : Prop :=
  p.qualifier? ≠ some .substitutable

namespace Position

theorem Concrete.replaceUnlessExplicit {p : Position} (hp : p.Concrete) {q : Qualifier}
    (hq : q ≠ .substitutable) (o : Origin) : (p.replaceUnlessExplicit q o).Concrete := by
  rcases replaceUnlessExplicit_cases p q o with h | ⟨-, h⟩
  · rw [h]; exact hp
  · rw [h]; simpa [Concrete, qualifier?] using hq

theorem Concrete.fill {p : Position} (hp : p.Concrete) {q : Qualifier}
    (hq : q ≠ .substitutable) (o : Origin) : (p.fill q o).Concrete := by
  rcases fill_cases p q o with h | ⟨-, h⟩
  · rw [h]; exact hp
  · rw [h]; simpa [Concrete, qualifier?] using hq

theorem Concrete.coerce {p : Position} (hp : p.Concrete) (c : Configuration) :
    (p.coerce c).Concrete := by
  unfold Position.coerce
  split
  · split
    · exact hp
    · exact hp.replaceUnlessExplicit (by decide) _
  · exact hp

theorem Concrete.step {c : Configuration} (hc : c.defaultQualifier ≠ .substitutable)
    {p : Position} (hp : p.Concrete) (s : Stage) : (s.step c p).Concrete := by
  unfold Stage.step
  split
  · cases s with
    | implicitImmutability => exact hp.coerce c
    | staticField => exact hp.replaceUnlessExplicit (by decide) _
    | objectMethods =>
      unfold Stage.apply
      dsimp only
      cases hq : p.kind.objectMethodQualifier? with
      | none => exact hp
      | some q =>
        refine hp.fill ?_ _
        rcases Kind.objectMethodQualifier?_cases hq with rfl | rfl <;> decide
    | nullLiteral => exact hp.fill (by decide) _
    | generic => exact hp.fill hc _
  · exact hp

theorem Concrete.run {c : Configuration} (hc : c.defaultQualifier ≠ .substitutable)
    (stages : List Stage) {p : Position} (hp : p.Concrete) : (Stage.run c stages p).Concrete := by
  induction stages generalizing p with
  | nil => exact hp
  | cons s rest ih => exact ih (hp.step hc s)

theorem Concrete.annotate {π : Policy} (hπ : π.config.defaultQualifier ≠ .substitutable)
    {p : Position} (hp : p.Concrete) : (π.annotate p).Concrete := by
  have hrun := hp.run hπ π.stages
  unfold Policy.annotate
  dsimp only
  split
  · exact hrun.coerce π.config
  · exact hrun

/-- A placeholder that is written somewhere is reported there. -/
theorem ne_substitutable_of_notIllegal {c : Configuration} {kind : Position.Kind}
    {host : HostType} {q : Qualifier}
    (h : ∀ x ∈ (written kind host (some q)).illegality? c, x.NotIllegal) : q ≠ .substitutable := by
  intro hq
  subst hq
  have hill : ∃ x, (written kind host (some .substitutable)).illegality? c = some x ∧
      x.kind = if kind = .cast then .invalidCastQualifier else .typeInvalid := by
    unfold illegality? written
    dsimp only [Option.map_some]
    split
    · exact ⟨_, rfl, rfl⟩
    · exact ⟨_, rfl, rfl⟩
  obtain ⟨x, hx, hkind⟩ := hill
  obtain ⟨htype, hcast⟩ := h x hx
  by_cases hk : kind = .cast
  · exact hcast (by rw [hkind, if_pos hk])
  · exact htype (by rw [hkind, if_neg hk])

theorem concrete_written {c : Configuration} {kind : Position.Kind} {host : HostType}
    {explicit : Option Qualifier}
    (h : ∀ x ∈ (written kind host explicit).illegality? c, x.NotIllegal) :
    (written kind host explicit).Concrete := by
  cases explicit with
  | none => simp [Concrete, qualifier?, written]
  | some q =>
    have hq := ne_substitutable_of_notIllegal h
    simpa [Concrete, qualifier?, written] using hq

end Position

theorem Policy.ne_substitutable_of_qualifierOf {π : Policy}
    (hπ : π.config.defaultQualifier ≠ .substitutable) {p : Position} (hp : p.Concrete)
    {q : Qualifier} (hq : π.qualifierOf p = .ok q) : q ≠ .substitutable := by
  have hannotate := hp.annotate hπ
  intro he
  rw [he] at hq
  exact hannotate (Policy.qualifierOf_eq_ok.1 hq)

theorem Policy.defaultQualifier_ne_substitutable {π : Policy}
    (hπ : π.config.defaultQualifier ≠ .substitutable) (kind : Position.Kind) (host : HostType) :
    π.defaultQualifier kind host ≠ .substitutable := by
  have hbare : (Position.bare kind host).Concrete := by simp [Position.Concrete,
    Position.qualifier?, Position.bare]
  have hrun := hbare.run hπ π.stages
  unfold Policy.defaultQualifier
  cases h : (Stage.run π.config π.stages (.bare kind host)).qualifier? with
  | none => exact hπ
  | some q =>
    intro he
    exact hrun (by rw [h, ← he]; rfl)

/-! ## Signatures -/

namespace Signature

/-- The signature has no placeholder. -/
def Concrete (σ : Signature) : Prop :=
  ∀ q ∈ σ.qualifiers, q ≠ .substitutable

/-- The arguments that are passed for polymorphic parameters. -/
def polymorphicArguments (params arguments : List Qualifier) : List Qualifier :=
  ((params.zip arguments).filter fun p => p.1 = .polyMutable).map Prod.snd

/-- The signature of a static method for a call with these arguments, said without a placeholder:
if the return is polymorphic, it and all polymorphic parameters are the join of the arguments that
are passed for the latter. -/
def instantiate (σ : Signature) (arguments : List Qualifier) : Signature :=
  if σ.ret = .polyMutable then
    let b := Qualifier.joinAll (polymorphicArguments σ.params arguments)
    { σ with params := σ.params.map fun q => if q = .polyMutable then b else q, ret := b }
  else σ

variable {σ : Signature}

theorem concrete_iff : σ.Concrete ↔ σ.ret ≠ .substitutable ∧
    (∀ q, σ.receiver = some q → q ≠ .substitutable) ∧ ∀ q ∈ σ.params, q ≠ .substitutable := by
  simp [Concrete, qualifiers, or_imp, forall_and]

/-- Seen through an instance, a signature gets a placeholder only if it is that of a static method
with a polymorphic return. -/
theorem Concrete.seenFrom_some (hσ : σ.Concrete) {r : Qualifier} (hr : r ≠ .substitutable)
    (h : ¬ (σ.isStatic = true ∧ σ.ret = .polyMutable)) : (σ.seenFrom (some r)).Concrete := by
  obtain ⟨hret, hreceiver, hparams⟩ := concrete_iff.1 hσ
  unfold seenFrom
  by_cases hs : σ.isStatic = true
  · have hp : σ.ret ≠ .polyMutable := fun hp => h ⟨hs, hp⟩
    rw [if_pos hs, substituteStatic, if_neg hp]
    exact hσ
  · rw [if_neg hs, concrete_iff]
    refine ⟨Viewpoint.adaptInvocation_ne_substitutable hr hret, ?_, ?_⟩
    · intro q hq
      obtain ⟨q', hq', rfl⟩ := Option.map_eq_some_iff.1 hq
      exact Viewpoint.adaptInvocation_ne_substitutable hr (hreceiver q' hq')
    · intro q hq
      obtain ⟨q', hq', rfl⟩ := List.mem_map.1 hq
      exact Viewpoint.adaptInvocation_ne_substitutable hr (hparams q' hq')

theorem ofPlaceholder_ne_substitutable {b : Qualifier} (hb : b ≠ .substitutable) (q : Qualifier) :
    ofPlaceholder b q ≠ .substitutable := by
  unfold ofPlaceholder
  split
  · exact hb
  · next h => exact h

theorem mem_of_mem_placeholderArguments {params arguments : List Qualifier} {q : Qualifier}
    (h : q ∈ placeholderArguments params arguments) : q ∈ arguments := by
  obtain ⟨x, hx, rfl⟩ := List.mem_map.1 h
  exact (List.of_mem_zip (List.mem_of_mem_filter hx)).2

theorem concrete_bind (σ : Signature) {arguments : List Qualifier}
    (h : ∀ q ∈ arguments, q ≠ .substitutable) : (σ.bind arguments).signature.Concrete := by
  have hb : Qualifier.joinAll (placeholderArguments σ.params arguments) ≠ .substitutable :=
    Qualifier.joinAll_ne_substitutable fun q hq => h q (mem_of_mem_placeholderArguments hq)
  rw [concrete_iff]
  refine ⟨ofPlaceholder_ne_substitutable hb _, ?_, ?_⟩
  · intro q hq
    obtain ⟨q', -, rfl⟩ := Option.map_eq_some_iff.1 hq
    exact ofPlaceholder_ne_substitutable hb q'
  · intro q hq
    obtain ⟨q', -, rfl⟩ := List.mem_map.1 hq
    exact ofPlaceholder_ne_substitutable hb q'

theorem ofPlaceholder_of_ne {b q : Qualifier} (h : q ≠ .substitutable) : ofPlaceholder b q = q :=
  if_neg h

theorem ofPlaceholder_toPlaceholder {b q : Qualifier} (h : q ≠ .substitutable) :
    ofPlaceholder b (toPlaceholder q) = if q = .polyMutable then b else q := by
  unfold toPlaceholder
  by_cases hq : q = .polyMutable
  · rw [if_pos hq, if_pos hq]
    rfl
  · rw [if_neg hq, if_neg hq, ofPlaceholder_of_ne h]

theorem placeholderArguments_map_toPlaceholder {params : List Qualifier}
    (h : ∀ q ∈ params, q ≠ .substitutable) (arguments : List Qualifier) :
    placeholderArguments (params.map toPlaceholder) arguments =
      polymorphicArguments params arguments := by
  induction params generalizing arguments with
  | nil => simp [placeholderArguments, polymorphicArguments]
  | cons q rest ih =>
    cases arguments with
    | nil => simp [placeholderArguments, polymorphicArguments]
    | cons a arguments =>
      have hq := h q List.mem_cons_self
      have hrest := ih (fun q' hq' => h q' (List.mem_cons_of_mem q hq')) arguments
      unfold placeholderArguments polymorphicArguments at hrest ⊢
      by_cases hp : q = .polyMutable
      · simp [hp, toPlaceholder, hrest]
      · simp [hp, hq, toPlaceholder, hrest]

/-- A call in the static form resolves all placeholders to the join of the arguments. -/
theorem bind_seenFrom_none (hσ : σ.Concrete) (hs : σ.isStatic = true)
    (arguments : List Qualifier) :
    ((σ.seenFrom none).bind arguments).signature = σ.instantiate arguments := by
  obtain ⟨hret, hreceiver, hparams⟩ := concrete_iff.1 hσ
  have hreceiver' : ∀ b, σ.receiver.map (ofPlaceholder b) = σ.receiver := by
    intro b
    cases h : σ.receiver with
    | none => rfl
    | some q => rw [Option.map_some, ofPlaceholder_of_ne (hreceiver q h)]
  unfold seenFrom instantiate substituteStatic
  rw [if_pos hs]
  by_cases hp : σ.ret = .polyMutable
  · rw [if_pos hp, if_pos hp]
    unfold bind
    dsimp only
    rw [placeholderArguments_map_toPlaceholder hparams, hreceiver', List.map_map]
    have hmap : ∀ b, σ.params.map (ofPlaceholder b ∘ toPlaceholder) =
        σ.params.map fun q => if q = .polyMutable then b else q := by
      intro b
      exact List.map_congr_left fun q hq => ofPlaceholder_toPlaceholder (hparams q hq)
    rw [hmap]
    rfl
  · rw [if_neg hp, if_neg hp]
    unfold bind
    dsimp only
    have hmap : ∀ b, σ.params.map (ofPlaceholder b) = σ.params := by
      intro b
      conv_rhs => rw [← List.map_id σ.params]
      exact List.map_congr_left fun q hq => ofPlaceholder_of_ne (hparams q hq)
    rw [hreceiver', hmap, ofPlaceholder_of_ne hret]

end Signature

end Mutability
