import Mutability.Proofs.Annotation

/-!
# Which orders of the stages are as good as the standard one

Two stages overwrite: on a type whose values can never change `implicitImmutability` has the last
word, and on any other static field `staticField` has. Where such a stage stands does not matter,
since it absorbs what the others did before it and they leave alone what it did
(`run_eq_of_absorbs`). The other three only fill a gap, so on a position without a qualifier the
first of them that applies decides (`run_eq_first`). That is why `objectMethods` and `nullLiteral`
have to come before `generic`, and why nothing else about the order matters
(`run_eq_standard_iff`).
-/

namespace Mutability

namespace Stage

/-- On a static field whose type has values that can change, stages with `staticField` among them
do what that one does. -/
theorem run_of_staticField {c : Configuration} {S : List Stage} (hS : staticField ∈ S)
    {p : Position} (hk : p.kind = .staticField) (hi : c.isImplicitlyImmutable p.host = false) :
    run c S p = p.replaceUnlessExplicit .mutable .defaulted := by
  refine run_eq_of_absorbs (t := staticField)
    (P := fun p => p.kind = .staticField ∧ c.isImplicitlyImmutable p.host = false)
    (f := fun p => p.replaceUnlessExplicit .mutable .defaulted) ?_ ?_ ?_ ?_ hS ⟨hk, hi⟩
  · intro p ⟨hk, hi⟩
    cases he : p.isExplicit with
    | true => simp [step, appliesTo, he, Position.replaceUnlessExplicit]
    | false => exact step_of_appliesTo (by simp [appliesTo, hk, he, hi])
  · intro s p ⟨hk, hi⟩
    rw [(step_cases c p s).host_eq, (step_cases c p s).kind_eq]
    exact ⟨hk, hi⟩
  · intro s p _
    rcases step_cases c p s with h | ⟨he, q, h⟩
    · rw [h]
    · rw [h, Position.replaceUnlessExplicit, Position.replaceUnlessExplicit, he]
      rfl
  · intro s p ⟨hk, hi⟩
    cases he : p.isExplicit with
    | true =>
      have hp : p.replaceUnlessExplicit .mutable .defaulted = p := by
        simp [Position.replaceUnlessExplicit, he]
      rw [hp, (step_cases c p s).eq_of_isExplicit he]
    | false =>
      cases s <;> simp [step, appliesTo, apply, Position.replaceUnlessExplicit, he, hi]

/-! ## Stages that fill a gap -/

section Open

variable {c : Configuration} {p : Position} (hi : c.isImplicitlyImmutable p.host = false)
  (hk : p.kind ≠ .staticField)

include hi hk

theorem isSome_marking_apply {s : Stage} (h : s.appliesTo c p = true) :
    (s.apply c p).marking.isSome = true := by
  have hfill : ∀ q, (p.fill q .defaulted).marking.isSome = true := by
    intro q
    cases hm : p.marking <;> simp [Position.fill, hm]
  cases s with
  | implicitImmutability => simp [appliesTo, hi] at h
  | staticField => simp [appliesTo, hk] at h
  | objectMethods =>
    cases hq : p.kind.objectMethodQualifier? with
    | none => simp [appliesTo, hq] at h
    | some q => simpa [apply, hq] using hfill q
  | nullLiteral => exact hfill .bottom
  | generic => exact hfill c.defaultQualifier

/-- Elsewhere the first stage that applies decides. -/
theorem run_eq_first (S : List Stage) :
    run c S p = ((S.find? (appliesTo c p)).map (apply c p)).getD p := by
  induction S with
  | nil => rfl
  | cons s rest ih =>
    show run c rest (s.step c p) = _
    cases h : s.appliesTo c p with
    | false => rw [step_of_not_appliesTo h, ih, List.find?_cons_of_neg (by simp [h])]
    | true =>
      have hstep : s.step c p = s.apply c p := step_of_appliesTo h
      have hd := step_cases c p s
      rw [hstep] at hd
      rw [hstep, List.find?_cons_of_pos h]
      refine run_of_marked ?_ ?_ (isSome_marking_apply hi hk h) rest
      · rw [hd.host_eq]; exact hi
      · rw [hd.kind_eq]; exact hk

end Open

/-! ## The orders that are as good as the standard one -/

/-- Every stage is there, and the stages with qualifiers of their own come before the first generic
one. -/
structure Admissible (S : List Stage) : Prop where
  mem : ∀ s, s ∈ S
  objectMethods_before : objectMethods ∈ S.takeWhile (· ≠ generic)
  nullLiteral_before : nullLiteral ∈ S.takeWhile (· ≠ generic)

theorem admissible_standard : Admissible standard where
  mem s := by cases s <;> decide
  objectMethods_before := by decide
  nullLiteral_before := by decide

/-- If only `t` and the generic stage are in question, the first of them is `t` or the generic one,
according to whether `t` stands before it. -/
theorem find?_eq {A : Stage → Bool} {t : Stage} (ht : A t = true) (hg : A generic = true)
    (honly : ∀ s, A s = true → s = t ∨ s = generic) {S : List Stage} (hS : generic ∈ S) :
    S.find? A = some (if t ∈ S.takeWhile (· ≠ generic) then t else generic) := by
  induction S with
  | nil => cases hS
  | cons s rest ih =>
    by_cases hs : s = generic
    · subst hs
      simp [List.find?_cons_of_pos hg]
    · have hrest : generic ∈ rest := (List.mem_cons.1 hS).resolve_left (Ne.symm hs)
      cases h : A s with
      | true =>
        obtain rfl : s = t := (honly s h).resolve_right hs
        simp [List.find?_cons_of_pos h, hs]
      | false =>
        have hne : t ≠ s := by
          rintro rfl
          rw [ht] at h
          cases h
        rw [List.find?_cons_of_neg (by simp [h]), ih hrest]
        simp [hs, hne]

/-- Where only the stages that fill a gap have a say, the first one that applies is the same in
every admissible order. -/
theorem find?_of_admissible {S : List Stage} (hS : Admissible S) {c : Configuration} {p : Position}
    (hi : c.isImplicitlyImmutable p.host = false) (hk : p.kind ≠ .staticField)
    (hm : p.marking = none) :
    S.find? (appliesTo c p) = some (if objectMethods.appliesTo c p then objectMethods
      else if nullLiteral.appliesTo c p then nullLiteral else generic) := by
  have hg : generic.appliesTo c p = true := by simp [appliesTo, hm]
  have hfirst : implicitImmutability.appliesTo c p = false := hi
  have hstatic : staticField.appliesTo c p = false := by simp [appliesTo, hk]
  cases ho : objectMethods.appliesTo c p with
  | true =>
    -- The null literal is in no signature, so the two special stages never apply both.
    have hn : nullLiteral.appliesTo c p = false := by
      by_cases hnull : p.kind = .nullLiteral
      · simp [appliesTo, hnull, Position.Kind.objectMethodQualifier?] at ho
      · simp [appliesTo, hnull]
    rw [find?_eq ho hg _ (hS.mem generic), if_pos hS.objectMethods_before, if_pos rfl]
    intro s hs
    cases s <;> simp_all
  | false =>
    cases hn : nullLiteral.appliesTo c p with
    | true =>
      rw [find?_eq hn hg _ (hS.mem generic), if_pos hS.nullLiteral_before]
      · rfl
      · intro s hs
        cases s <;> simp_all
    | false =>
      rw [find?_eq hg hg _ (hS.mem generic), ite_self]
      · rfl
      · intro s hs
        cases s <;> simp_all

theorem run_of_admissible {S T : List Stage} (hS : Admissible S) (hT : Admissible T)
    (c : Configuration) (p : Position) : run c S p = run c T p := by
  cases hi : c.isImplicitlyImmutable p.host with
  | true => rw [run_of_implicit (hS.mem _) hi, run_of_implicit (hT.mem _) hi]
  | false =>
    by_cases hk : p.kind = .staticField
    · rw [run_of_staticField (hS.mem _) hk hi, run_of_staticField (hT.mem _) hk hi]
    · cases hm : p.marking with
      | some a =>
        have hm : p.marking.isSome = true := by rw [hm]; rfl
        rw [run_of_marked hi hk hm, run_of_marked hi hk hm]
      | none =>
        rw [run_eq_first hi hk, run_eq_first hi hk, find?_of_admissible hS hi hk hm,
          find?_of_admissible hT hi hk hm]

/-! ## Positions that tell the other orders apart

A stage is missing, or one with qualifiers of its own comes too late: for each of these there is a
position on which no other stage makes up for it.
-/

/-- There are five stages to look at. -/
instance decidableForall (P : Stage → Prop) [DecidablePred P] : Decidable (∀ s, P s) :=
  decidable_of_iff (∀ s ∈ standard, P s)
    ⟨fun h s => h s (admissible_standard.mem s), fun h s _ => h s⟩

theorem mem_of_run_eq {c : Configuration} {t : Stage} {p : Position} {S : List Stage}
    (honly : ∀ s, s.appliesTo c p = true → s = t) (hne : run c standard p ≠ p)
    (h : run c S p = run c standard p) : t ∈ S := by
  apply Decidable.byContradiction
  intro ht
  have hself : run c S p = p := by
    apply run_eq_self
    intro s hs
    have hno : s.appliesTo c p ≠ true := fun hs' => ht (honly s hs' ▸ hs)
    exact step_of_not_appliesTo (Bool.not_eq_true _ ▸ hno)
  exact hne (h.symm.trans hself)

theorem before_of_run_eq {c : Configuration} {t : Stage} {p : Position} {S : List Stage}
    (hi : c.isImplicitlyImmutable p.host = false) (hk : p.kind ≠ .staticField)
    (ht : t.appliesTo c p = true) (hg : generic.appliesTo c p = true)
    (honly : ∀ s, s.appliesTo c p = true → s = t ∨ s = generic)
    (hne : run c standard p ≠ generic.apply c p) (hS : generic ∈ S)
    (h : run c S p = run c standard p) : t ∈ S.takeWhile (· ≠ generic) := by
  apply Decidable.byContradiction
  intro hlate
  have hgeneric : run c S p = generic.apply c p := by
    rw [run_eq_first hi hk, find?_eq ht hg honly hS, if_neg hlate]
    rfl
  exact hne (h.symm.trans hgeneric)

theorem admissible_of_run_eq {S : List Stage}
    (h : ∀ (c : Configuration) (p : Position), run c S p = run c standard p) : Admissible S := by
  have hi : implicitImmutability ∈ S :=
    mem_of_run_eq (p := ⟨.localVariable, .primitive .int, some ⟨.mutable, .propagated⟩⟩)
      (by decide) (by decide) (h .standard _)
  have hs : staticField ∈ S :=
    mem_of_run_eq (p := ⟨.staticField, .null, some ⟨.immutable, .propagated⟩⟩)
      (by decide) (by decide) (h .standard _)
  have hg : generic ∈ S :=
    mem_of_run_eq (p := .bare .localVariable .null) (by decide) (by decide) (h .standard _)
  have ho : objectMethods ∈ S.takeWhile (· ≠ generic) :=
    before_of_run_eq (p := .bare (.receiver "hashCode") .null) rfl (by decide) (by decide)
      (by decide) (by decide) (by decide) hg (h .standard _)
  have hn : nullLiteral ∈ S.takeWhile (· ≠ generic) :=
    before_of_run_eq (p := .bare .nullLiteral .null) rfl (by decide) (by decide) (by decide)
      (by decide) (by decide) hg (h .standard _)
  refine ⟨fun s => ?_, ho, hn⟩
  cases s with
  | implicitImmutability => exact hi
  | staticField => exact hs
  | objectMethods => exact (List.takeWhile_prefix _).subset ho
  | nullLiteral => exact (List.takeWhile_prefix _).subset hn
  | generic => exact hg

/-- An order of stages does what the standard one does, on every position and under every
configuration, exactly if every stage is there and those with qualifiers of their own come before
the first generic one. -/
theorem run_eq_standard_iff (S : List Stage) :
    (∀ (c : Configuration) (p : Position), run c S p = run c standard p) ↔
      (∀ s, s ∈ S) ∧ objectMethods ∈ S.takeWhile (· ≠ generic) ∧
        nullLiteral ∈ S.takeWhile (· ≠ generic) := by
  constructor
  · intro h
    obtain ⟨hmem, ho, hn⟩ := admissible_of_run_eq h
    exact ⟨hmem, ho, hn⟩
  · intro ⟨hmem, ho, hn⟩ c p
    exact run_of_admissible ⟨hmem, ho, hn⟩ admissible_standard c p

/-- The stages that overwrite may come last, and any stage more than once. -/
example :
    let S := [nullLiteral, objectMethods, nullLiteral, generic, staticField, generic,
      implicitImmutability]
    (∀ s, s ∈ S) ∧ objectMethods ∈ S.takeWhile (· ≠ generic) ∧
      nullLiteral ∈ S.takeWhile (· ≠ generic) := by
  decide

end Stage

end Mutability
