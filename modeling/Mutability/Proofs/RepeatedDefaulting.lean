import Mutability.Proofs.StageOrders

/-!
# Defaulting a position again

Positions are defaulted more than once: the target of an assignment goes through all stages again
although its declaration has been through them. For any list of stages the second time changes
nothing (`run_run`), and the same holds where operators and casts are coerced after the stages
(`annotate_annotate`).

Whatever the stages are, one of three things is true of a position. A stage that overwrites has the
last word, either `implicitImmutability` or `staticField`, and doing twice what such a stage does is
doing it once. Or the stages only fill a gap (`OnlyFills`), and after that there is none.
-/

namespace Mutability

namespace Position

/-- What may be done to positions without losing anything: a second time changes nothing, kind, type
and written annotations stay, no qualifier is taken away, and one that was not there before is given
by default. -/
structure Conservative (f : Position → Position) : Prop where
  twice : ∀ p, f (f p) = f p
  kind : ∀ p, (f p).kind = p.kind
  host : ∀ p, (f p).host = p.host
  written : ∀ p q, p.marking = some ⟨q, .explicit⟩ → f p = p
  kept : ∀ p, p.marking ≠ none → (f p).marking ≠ none
  changed : ∀ p a, (f p).marking = some a → p.marking ≠ some a → a.origin = .defaulted

theorem replaceUnlessExplicit_twice (p : Position) (q : Qualifier) (o : Origin) :
    (p.replaceUnlessExplicit q o).replaceUnlessExplicit q o = p.replaceUnlessExplicit q o := by
  rcases p.replaceUnlessExplicit_cases q o with h | ⟨-, h⟩
  · rw [h, h]
  · rw [h]
    unfold replaceUnlessExplicit
    split <;> rfl

/-- A function that gives qualifiers by default only, and does nothing more the second time, is
conservative. -/
theorem conservative_of_defaulted {f : Position → Position} (htwice : ∀ p, f (f p) = f p)
    (hf : ∀ p : Position, p.Defaulted (f p)) : Conservative f where
  twice := htwice
  kind p := (hf p).kind_eq
  host p := (hf p).host_eq
  written p q hq := (hf p).eq_of_isExplicit (by simp [isExplicit, hq])
  kept p hp := by
    rw [← Option.isSome_iff_ne_none] at hp ⊢
    exact (hf p).isSome_marking hp
  changed p a ha hne := by
    rcases hf p with h | ⟨-, q, h⟩
    · rw [h] at ha
      exact absurd ha hne
    · rw [h] at ha
      obtain rfl : _ = a := Option.some.inj ha
      rfl

end Position

namespace Stage

variable {c : Configuration} {S : List Stage} {p : Position}

/-- No stage of the list overwrites a qualifier at the position. -/
structure OnlyFills (c : Configuration) (S : List Stage) (p : Position) : Prop where
  implicit : implicitImmutability ∈ S → c.isImplicitlyImmutable p.host = false
  static : staticField ∈ S → p.kind = .staticField → c.isImplicitlyImmutable p.host = true

/-- One of the two stages that overwrite has the last word on a position, or neither has a say. -/
theorem overwrites_or_onlyFills (c : Configuration) (S : List Stage) (p : Position) :
    (implicitImmutability ∈ S ∧ c.isImplicitlyImmutable p.host = true) ∨
      (staticField ∈ S ∧ p.kind = .staticField ∧ c.isImplicitlyImmutable p.host = false) ∨
      OnlyFills c S p := by
  cases hi : c.isImplicitlyImmutable p.host with
  | true =>
    by_cases h : implicitImmutability ∈ S
    · exact Or.inl ⟨h, rfl⟩
    · exact Or.inr (Or.inr ⟨fun h' => absurd h' h, fun _ _ => hi⟩)
  | false =>
    by_cases h : staticField ∈ S ∧ p.kind = .staticField
    · exact Or.inr (Or.inl ⟨h.1, h.2, rfl⟩)
    · exact Or.inr (Or.inr ⟨fun _ => hi, fun hS hk => absurd ⟨hS, hk⟩ h⟩)

/-- Where gaps are only filled, a position with a qualifier stays as it is. -/
theorem OnlyFills.run_of_marked (h : OnlyFills c S p) (hm : p.marking.isSome = true) :
    run c S p = p := by
  apply run_eq_self
  intro s hs
  by_cases hi : s = implicitImmutability
  · subst hi
    exact step_of_not_appliesTo (h.implicit hs)
  by_cases hk : s = staticField
  · subst hk
    apply step_of_not_appliesTo
    by_cases hkind : p.kind = .staticField
    · simp [appliesTo, h.static hs hkind]
    · simp [appliesTo, hkind]
  · exact step_of_marked hm hi hk

/-- Any stages in any order do the second time nothing that they have not done the first time. -/
theorem run_run (c : Configuration) (S : List Stage) (p : Position) :
    run c S (run c S p) = run c S p := by
  have hhost := (run_cases c S p).host_eq
  have hkind := (run_cases c S p).kind_eq
  rcases overwrites_or_onlyFills c S p with ⟨hS, hi⟩ | ⟨hS, hk, hi⟩ | hfills
  · rw [run_of_implicit hS (hhost ▸ hi), run_of_implicit hS hi, Position.coerce_coerce]
  · rw [run_of_staticField hS (hkind.trans hk) (hhost ▸ hi), run_of_staticField hS hk hi,
      Position.replaceUnlessExplicit_twice]
  · rcases run_cases c S p with h | ⟨-, q, h⟩
    · -- Nothing applied the first time, so the second run is the first one again.
      rw [h, h]
    · have hfills' : OnlyFills c S (run c S p) :=
        ⟨fun hS => hhost ▸ hfills.implicit hS,
          fun hS hk => hhost ▸ hfills.static hS (hkind.symm.trans hk)⟩
      exact hfills'.run_of_marked (by rw [h]; rfl)

/-- On a type whose values can never change, coercion absorbs whatever any stages did before. -/
theorem coerce_run (hi : c.isImplicitlyImmutable p.host = true) :
    (run c S p).coerce c = p.coerce c := by
  induction S generalizing p with
  | nil => rfl
  | cons s rest ih =>
    show (run c rest (s.step c p)).coerce c = p.coerce c
    rw [ih ((step_cases c p s).host_eq ▸ hi), coerce_step hi]

end Stage

namespace Policy

variable (π : Policy) {p : Position}

theorem annotate_of_not_operand (h : ¬ (p.kind = .binary ∨ p.kind = .cast)) :
    π.annotate p = Stage.run π.config π.stages p := by
  have hkind := (Stage.run_cases π.config π.stages p).kind_eq
  unfold annotate
  dsimp only
  rw [hkind, if_neg h]

/-- Coercion is only felt on a type whose values can never change. -/
theorem annotate_of_not_implicit (hi : π.config.isImplicitlyImmutable p.host = false) :
    π.annotate p = Stage.run π.config π.stages p := by
  have hhost := (Stage.run_cases π.config π.stages p).host_eq
  unfold annotate
  dsimp only
  rw [Position.coerce_of_not_implicit (hhost ▸ hi), ite_self]

/-- There an operator or cast is coerced, whether or not a stage does so. -/
theorem annotate_of_operand (hi : π.config.isImplicitlyImmutable p.host = true)
    (h : p.kind = .binary ∨ p.kind = .cast) : π.annotate p = p.coerce π.config := by
  have hkind := (Stage.run_cases π.config π.stages p).kind_eq
  unfold annotate
  dsimp only
  rw [hkind, if_pos h, Stage.coerce_run hi]

theorem annotate_annotate (p : Position) : π.annotate (π.annotate p) = π.annotate p := by
  have hkind := π.annotate_kind p
  have hhost := π.annotate_host p
  cases hi : π.config.isImplicitlyImmutable p.host with
  | false =>
    rw [π.annotate_of_not_implicit (hhost ▸ hi), π.annotate_of_not_implicit hi]
    exact Stage.run_run π.config π.stages p
  | true =>
    by_cases h : p.kind = .binary ∨ p.kind = .cast
    · rw [π.annotate_of_operand (hhost ▸ hi) (hkind ▸ h), π.annotate_of_operand hi h]
      exact p.coerce_coerce π.config
    · rw [π.annotate_of_not_operand (hkind ▸ h), π.annotate_of_not_operand h]
      exact Stage.run_run π.config π.stages p

end Policy

/-- Under every configuration, any stages in any order, possibly none, default positions for good
and lose nothing, with and without the coercion of operators and casts after them. -/
theorem defaulting_conservative (π : Policy) :
    Position.Conservative (Stage.run π.config π.stages) ∧ Position.Conservative π.annotate :=
  ⟨Position.conservative_of_defaulted (Stage.run_run π.config π.stages)
      (Stage.run_cases π.config π.stages),
    Position.conservative_of_defaulted π.annotate_annotate π.annotate_cases⟩

/-- Stages that leave a position without a qualifier leave it so; on a cast the coercion after them
gives one, which stays. -/
example :
    let π : Policy := ⟨.standard, [.nullLiteral, .staticField]⟩
    let p := Position.bare .cast (.primitive .int)
    Stage.run π.config π.stages p = p ∧
      π.annotate p = { p with marking := some ⟨.immutable, .defaulted⟩ } ∧
      π.annotate (π.annotate p) = π.annotate p := by
  decide

end Mutability
