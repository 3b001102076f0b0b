import Mutability.Proofs.CleanBodies

/-!
# Accesses through a view

An object is `mutable` or `immutable`, and is used through references whose qualifiers lie above
its own: that qualifier itself, or `readonly`. A call or write that is accepted through such a view
should be legal for the object behind it. It is, as far as nothing in the signature or in the field
follows the receiver. A parameter that does takes anything through a `readonly` view, and so does
an assignable field: what is passed or stored there fits the object only if it is below the
qualifier of the object (`access_through_view_iff`). The receiver itself always fits, and a field
that may only be written through a `mutable` receiver is never written through a `readonly` view.
-/

namespace Mutability

theorem Qualifier.eq_or_eq_readonly_of_le {c view : Qualifier}
    (hc : c = .mutable ∨ c = .immutable) (h : c ≤ view) : view = c ∨ view = .readonly := by
  revert h
  rcases hc with rfl | rfl <;> cases view <;> decide

/-- The qualifier follows the receiver through which a method is called. -/
def Qualifier.FollowsReceiver (q : Qualifier) : Prop :=
  q = .receiverDependant ∨ q = .polyMutable

namespace Viewpoint

theorem adaptInvocation_of_followsReceiver {q : Qualifier} (h : q.FollowsReceiver)
    (r : Qualifier) : adaptInvocation r q = r :=
  if_pos h

theorem adaptInvocation_of_not_followsReceiver {q : Qualifier} (h : ¬ q.FollowsReceiver)
    (r : Qualifier) : adaptInvocation r q = q :=
  if_neg h

end Viewpoint

/-- Two relations that agree on related members are, over a whole list, the same as the second one
at every place. -/
theorem forall₂_iff_getElem? {α β : Type} {R S T : α → β → Prop} {as : List α} {bs : List β}
    (h : List.Forall₂ R as bs) (hST : ∀ a b, R a b → (S a b ↔ T a b)) :
    List.Forall₂ S as bs ↔
      ∀ (i : Nat) (a : α) (b : β), as[i]? = some a → bs[i]? = some b → T a b := by
  induction h with
  | nil =>
    constructor
    · intro _ i a b ha
      simp at ha
    · intro _
      exact .nil
  | @cons a b as bs hab _ ih =>
    rw [List.forall₂_cons, ih, hST a b hab]
    constructor
    · intro hall i a' b' ha hb
      cases i with
      | zero =>
        obtain rfl := Option.some.inj ha
        obtain rfl := Option.some.inj hb
        exact hall.1
      | succ i => exact hall.2 i a' b' ha hb
    · intro hall
      refine ⟨hall 0 a b rfl rfl, ?_⟩
      intro i a' b' ha hb
      exact hall (i + 1) a' b' ha hb

/-! ## Calls -/

namespace Signature

/-- A call through a view with these arguments fits the signature as it is seen there. -/
structure Accepts (σ : Signature) (view : Qualifier) (args : List Qualifier) : Prop where
  receiver : ∀ q, (σ.seenFrom (some view)).receiver = some q → view ≤ q
  arguments : List.Forall₂ (· ≤ ·) args (σ.seenFrom (some view)).params

variable {σ : Signature} {args : List Qualifier}

/-- With the right number of arguments, what is accepted is what the checker has nothing to say
about. -/
theorem accepts_iff {view : Qualifier} (h : args.length = σ.params.length) :
    σ.Accepts view args ↔
      Checker.misfit .methodInvocationInvalid view (σ.seenFrom (some view)).receiver = [] ∧
        Construction.argumentDiagnostics id 0 args (σ.seenFrom (some view)).params = [] := by
  have hlen : args.length = (σ.seenFrom (some view)).params.length := by
    rw [Checker.length_seenFrom, h]
  rw [Checker.misfit_eq_nil, Construction.argumentDiagnostics_eq_nil hlen]
  constructor
  · intro haccepts
    exact ⟨haccepts.receiver, haccepts.arguments⟩
  · intro hnone
    exact ⟨hnone.1, hnone.2⟩

/-- The signature with every qualifier changed by `f`. -/
def mapQualifiers (f : Qualifier → Qualifier) (σ : Signature) : Signature :=
  { σ with receiver := σ.receiver.map f, params := σ.params.map f, ret := f σ.ret }

theorem seenFrom_of_not_static (hs : σ.isStatic = false) (view : Qualifier) :
    σ.seenFrom (some view) = σ.mapQualifiers (Viewpoint.adaptInvocation view) := by
  rw [seenFrom, if_neg (by rw [hs]; decide)]
  rfl

theorem accepts_iff_of_not_static {view : Qualifier} (hs : σ.isStatic = false) :
    σ.Accepts view args ↔
      (∀ q, σ.receiver = some q → view ≤ Viewpoint.adaptInvocation view q) ∧
        List.Forall₂ (fun a q => a ≤ Viewpoint.adaptInvocation view q) args σ.params := by
  have hseen := seenFrom_of_not_static hs view
  constructor
  · intro h
    have hreceiver := h.receiver
    have harguments := h.arguments
    rw [hseen] at hreceiver harguments
    refine ⟨fun q hq => ?_, List.forall₂_map_right_iff.1 harguments⟩
    exact hreceiver _ (Option.map_eq_some_iff.2 ⟨q, hq, rfl⟩)
  · intro h
    constructor
    · rw [hseen]
      intro q hq
      obtain ⟨q', hq', rfl⟩ := Option.map_eq_some_iff.1 hq
      exact h.1 q' hq'
    · rw [hseen]
      exact List.forall₂_map_right_iff.2 h.2

/-- A receiver that fits a `readonly` view fits every view. -/
theorem le_adaptInvocation_of_readonly {q : Qualifier}
    (h : .readonly ≤ Viewpoint.adaptInvocation .readonly q) (c : Qualifier) :
    c ≤ Viewpoint.adaptInvocation c q := by
  by_cases hq : q.FollowsReceiver
  · rw [Viewpoint.adaptInvocation_of_followsReceiver hq]
    exact Qualifier.le_refl c
  · rw [Viewpoint.adaptInvocation_of_not_followsReceiver hq] at h ⊢
    exact Qualifier.le_trans (Qualifier.le_readonly c) h

/-- A call that is accepted through a `readonly` view is accepted through another one exactly if
the arguments for parameters that follow the receiver are below that one. -/
theorem Accepts.iff_of_readonly (hs : σ.isStatic = false) (h : σ.Accepts .readonly args)
    (c : Qualifier) : σ.Accepts c args ↔
      ∀ (i : Nat) a q, args[i]? = some a → σ.params[i]? = some q → q.FollowsReceiver → a ≤ c := by
  obtain ⟨hreceiver, harguments⟩ := (accepts_iff_of_not_static hs).1 h
  have hview : ∀ q, σ.receiver = some q → c ≤ Viewpoint.adaptInvocation c q := by
    intro q hq
    exact le_adaptInvocation_of_readonly (hreceiver q hq) c
  have hpoint : ∀ a q : Qualifier, a ≤ Viewpoint.adaptInvocation .readonly q →
      (a ≤ Viewpoint.adaptInvocation c q ↔ (q.FollowsReceiver → a ≤ c)) := by
    intro a q haq
    by_cases hq : q.FollowsReceiver
    · rw [Viewpoint.adaptInvocation_of_followsReceiver hq]
      simp [hq]
    · rw [Viewpoint.adaptInvocation_of_not_followsReceiver hq] at haq ⊢
      simp [hq, haq]
  rw [accepts_iff_of_not_static hs, ← forall₂_iff_getElem? harguments hpoint]
  exact and_iff_right hview

end Signature

/-! ## Writes -/

theorem Field.writeDiagnostics_eq_nil_of_not_static {f : Field} (hs : f.isStatic = false)
    {view value : Qualifier} {inConstructor : Bool} :
    f.writeDiagnostics view inConstructor value = [] ↔
      f.canAssign view inConstructor = true ∧ value ≤ f.viewedThrough view := by
  have heff : f.effectiveReceiver view = view := by
    rw [effectiveReceiver, if_neg (by rw [hs]; decide)]
  unfold writeDiagnostics
  dsimp only
  rw [heff, List.append_eq_nil_iff, diagnostic_unless_eq_nil, diagnostic_unless_eq_nil]

/-- Through a `readonly` view only fields of the other two categories are written. -/
theorem Field.assignability_ne_of_readonly {f : Field} (hs : f.isStatic = false)
    {inConstructor : Bool} (h : f.canAssign .readonly inConstructor = true) :
    f.assignability ≠ .receiverDependantAssignable := by
  intro ha
  rw [canAssign, ha] at h
  simp only [hs, Bool.false_or] at h
  revert h
  decide

theorem Field.viewedThrough_of_receiverDependant {f : Field} (h : f.declared = .receiverDependant)
    (r : Qualifier) : f.viewedThrough r = r := by
  rw [viewedThrough, Viewpoint.adapt, if_pos h]

theorem Field.viewedThrough_of_ne {f : Field} (h : f.declared ≠ .receiverDependant)
    (r : Qualifier) : f.viewedThrough r = f.declared := by
  rw [viewedThrough, Viewpoint.adapt, if_neg h]

/-- A call or write that is accepted through a view is legal for the object behind the view, unless
the view is `readonly` and something is passed for a parameter, or stored in a field, that follows
the receiver. It is then legal exactly if that is below the qualifier of the object. -/
theorem access_through_view_iff (c view : Qualifier) (hc : c = .mutable ∨ c = .immutable)
    (hle : c ≤ view) :
    (∀ (σ : Signature) (args : List Qualifier), σ.isStatic = false → σ.Accepts view args →
      (σ.Accepts c args ↔ (view = .readonly → ∀ (i : Nat) a q, args[i]? = some a →
        σ.params[i]? = some q → q = .receiverDependant ∨ q = .polyMutable → a ≤ c))) ∧
    ∀ (f : Field) (inConstructor : Bool) (value : Qualifier), f.isStatic = false →
      f.writeDiagnostics view inConstructor value = [] →
      (value ≤ f.viewedThrough c ↔ (view = .readonly → f.declared = .receiverDependant →
        f.assignability ≠ .receiverDependantAssignable → value ≤ c)) := by
  constructor
  · intro σ args hs h
    rcases Qualifier.eq_or_eq_readonly_of_le hc hle with rfl | rfl
    · have hne : view ≠ .readonly := by rcases hc with rfl | rfl <;> decide
      simp [h, hne]
    · rw [h.iff_of_readonly hs c]
      simp [Qualifier.FollowsReceiver]
  · intro f inConstructor value hs h
    obtain ⟨hassign, hvalue⟩ := (Field.writeDiagnostics_eq_nil_of_not_static hs).1 h
    rcases Qualifier.eq_or_eq_readonly_of_le hc hle with rfl | rfl
    · have hne : view ≠ .readonly := by rcases hc with rfl | rfl <;> decide
      simp [hvalue, hne]
    · have hcategory := Field.assignability_ne_of_readonly hs hassign
      by_cases hd : f.declared = .receiverDependant
      · rw [Field.viewedThrough_of_receiverDependant hd]
        simp [hd, hcategory]
      · rw [Field.viewedThrough_of_ne hd] at hvalue ⊢
        simp [hd, hvalue]

/-- A method that may be called through any view and takes what its object may hold. -/
def putSignature : Signature :=
  ⟨"put", false, some .readonly, [.receiverDependant, .mutable], .bottom⟩

/-- A field that may be written through any view and holds what its object may hold. -/
def heldField : Field :=
  ⟨"held", .receiverDependant, .assignable, false⟩

/-- Through a `readonly` view an `immutable` argument is accepted that a `mutable` object does not
take, and a `mutable` value is stored in a field of an `immutable` object. -/
theorem readonly_view_accepts_more :
    (Qualifier.mutable ≤ .readonly ∧ putSignature.isStatic = false ∧
      putSignature.Accepts .readonly [.immutable, .mutable] ∧
      ¬ putSignature.Accepts .mutable [.immutable, .mutable]) ∧
    Qualifier.immutable ≤ .readonly ∧ heldField.isStatic = false ∧
      heldField.writeDiagnostics .readonly false .mutable = [] ∧
      ¬ Qualifier.mutable ≤ heldField.viewedThrough .immutable := by
  have hlen : [Qualifier.immutable, .mutable].length = putSignature.params.length := rfl
  refine ⟨⟨by decide, rfl, (Signature.accepts_iff hlen).2 (by decide), fun h => ?_⟩,
    by decide, rfl, by decide, by decide⟩
  exact absurd ((Signature.accepts_iff hlen).1 h) (by decide)

/-- What a `mutable` object may hold is accepted for it through a `readonly` view and through its
own qualifier, but not for an `immutable` one. -/
theorem access_through_view_iff_putSignature :
    putSignature.Accepts .readonly [.mutable, .mutable] ∧
    putSignature.Accepts .mutable [.mutable, .mutable] ∧
    ¬ putSignature.Accepts .immutable [.mutable, .mutable] ∧
    heldField.writeDiagnostics .readonly false .mutable = [] ∧
    Qualifier.mutable ≤ heldField.viewedThrough .mutable := by
  have hlen : [Qualifier.mutable, .mutable].length = putSignature.params.length := rfl
  have hcall : putSignature.Accepts .readonly [.mutable, .mutable] :=
    (Signature.accepts_iff hlen).2 (by decide)
  have hwrite : heldField.writeDiagnostics .readonly false .mutable = [] := by decide
  obtain ⟨hmutable, hfield⟩ := access_through_view_iff .mutable .readonly (by decide) (by decide)
  obtain ⟨himmutable, -⟩ := access_through_view_iff .immutable .readonly (by decide) (by decide)
  refine ⟨hcall, (hmutable putSignature _ rfl hcall).2 ?_, fun h => ?_, hwrite,
    (hfield heldField false .mutable rfl hwrite).2 fun _ _ _ => by decide⟩
  · intro _ i a q ha _ _
    have hmem := List.mem_of_getElem? ha
    simp only [List.mem_cons, List.not_mem_nil, or_false, or_self] at hmem
    rw [hmem]
    decide
  · have hle := (himmutable putSignature _ rfl hcall).1 h rfl 0 .mutable .receiverDependant rfl rfl
      (Or.inl rfl)
    exact absurd hle (by decide)

end Mutability
