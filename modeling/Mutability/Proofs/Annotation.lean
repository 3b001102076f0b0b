import Mutability.Policy
import Mutability.Proofs.CheckerSteps

/-!
# What defaulting does to a position

A stage either leaves a position alone or gives a qualifier by default to one that is not annotated
in the program (`step_cases`), and so does a whole run (`annotate_cases`). Kind, type and written
annotations are therefore never changed, and a list of stages with the generic one leaves no
position without a qualifier (`qualifierOf_total`). A stage that overwrites what the others did has
the last word wherever it stands (`run_eq_of_absorbs`); on a type whose values can never change that
is the first one (`run_of_implicit`).

For the standard order of stages the qualifiers are given outright: that of a position without an
annotation (`annotate_bare`), and those of the positions that expressions ask about. On a type
whose values can never change only `immutable` comes out, whatever the operands or the assigned
value are (`qualifier?_annotate_of_implicit`, `qualifierOf_operand`).
-/

namespace Mutability

namespace Position

theorem written_isExplicit (kind : Kind) (host : HostType) (q : Option Qualifier) :
    (written kind host q).isExplicit = q.isSome := by
  cases q <;> rfl

theorem replaceUnlessExplicit_cases (p : Position) (q : Qualifier) (o : Origin) :
    p.replaceUnlessExplicit q o = p ∨
      p.isExplicit = false ∧ p.replaceUnlessExplicit q o = { p with marking := some ⟨q, o⟩ } := by
  unfold replaceUnlessExplicit
  cases h : p.isExplicit with
  | true => exact Or.inl rfl
  | false => exact Or.inr ⟨rfl, rfl⟩

theorem fill_cases (p : Position) (q : Qualifier) (o : Origin) :
    p.fill q o = p ∨
      p.isExplicit = false ∧ p.fill q o = { p with marking := some ⟨q, o⟩ } := by
  unfold fill isExplicit
  cases p.marking with
  | none => exact Or.inr ⟨rfl, rfl⟩
  | some a => exact Or.inl rfl

/-- The position as it was, or with a qualifier by default where none is written. -/
def Defaulted (p p' : Position) : Prop :=
  p' = p ∨ p.isExplicit = false ∧ ∃ q, p' = { p with marking := some ⟨q, .defaulted⟩ }

namespace Defaulted

theorem refl (p : Position) : Defaulted p p := Or.inl rfl

theorem trans {p p' p'' : Position} (h : Defaulted p p') (h' : Defaulted p' p'') :
    Defaulted p p'' := by
  rcases h with rfl | ⟨he, q, rfl⟩
  · exact h'
  · rcases h' with rfl | ⟨-, q', rfl⟩
    · exact Or.inr ⟨he, q, rfl⟩
    · exact Or.inr ⟨he, q', rfl⟩

theorem kind_eq {p p' : Position} (h : Defaulted p p') : p'.kind = p.kind := by
  rcases h with rfl | ⟨-, q, rfl⟩ <;> rfl

theorem host_eq {p p' : Position} (h : Defaulted p p') : p'.host = p.host := by
  rcases h with rfl | ⟨-, q, rfl⟩ <;> rfl

theorem isExplicit_eq {p p' : Position} (h : Defaulted p p') : p'.isExplicit = p.isExplicit := by
  rcases h with rfl | ⟨he, q, rfl⟩
  · rfl
  · rw [he]; rfl

theorem eq_of_isExplicit {p p' : Position} (h : Defaulted p p') (he : p.isExplicit = true) :
    p' = p := by
  rcases h with h | ⟨hne, -⟩
  · exact h
  · rw [he] at hne; cases hne

theorem isSome_marking {p p' : Position} (h : Defaulted p p') (hp : p.marking.isSome = true) :
    p'.marking.isSome = true := by
  rcases h with rfl | ⟨-, q, rfl⟩
  · exact hp
  · rfl

end Defaulted

theorem defaulted_replaceUnlessExplicit (p : Position) (q : Qualifier) :
    Defaulted p (p.replaceUnlessExplicit q .defaulted) := by
  rcases replaceUnlessExplicit_cases p q .defaulted with h | ⟨he, h⟩
  · exact Or.inl h
  · exact Or.inr ⟨he, q, h⟩

theorem defaulted_fill (p : Position) (q : Qualifier) : Defaulted p (p.fill q .defaulted) := by
  rcases fill_cases p q .defaulted with h | ⟨he, h⟩
  · exact Or.inl h
  · exact Or.inr ⟨he, q, h⟩

theorem defaulted_coerce (p : Position) (c : Configuration) : Defaulted p (p.coerce c) := by
  unfold coerce
  split
  · split
    · exact .refl p
    · exact defaulted_replaceUnlessExplicit p .immutable
  · exact .refl p

/-- Where only `immutable` is possible, a position that says nothing else is made `immutable`. -/
theorem qualifier?_coerce {p : Position} {c : Configuration}
    (hi : c.isImplicitlyImmutable p.host = true)
    (hp : p.isExplicit = true → p.qualifier? = some .immutable) :
    (p.coerce c).qualifier? = some .immutable := by
  unfold coerce
  rw [if_pos hi]
  split
  · next h => exact h
  · next h =>
    have he : p.isExplicit = false := by
      cases hx : p.isExplicit with
      | true => exact absurd (hp hx) h
      | false => rfl
    unfold replaceUnlessExplicit
    rw [he]
    rfl

theorem coerce_of_not_implicit {c : Configuration} {p : Position}
    (hi : c.isImplicitlyImmutable p.host = false) : p.coerce c = p := by
  simp [coerce, hi]

theorem coerce_coerce (c : Configuration) (p : Position) :
    (p.coerce c).coerce c = p.coerce c := by
  have hhost : (p.coerce c).host = p.host := (p.defaulted_coerce c).host_eq
  cases hi : c.isImplicitlyImmutable p.host with
  | false => exact coerce_of_not_implicit (hhost ▸ hi)
  | true =>
    by_cases he : p.isExplicit = true
    · have hp : p.coerce c = p := (p.defaulted_coerce c).eq_of_isExplicit he
      rw [hp, hp]
    · have hq : (p.coerce c).qualifier? = some .immutable :=
        qualifier?_coerce hi fun h => absurd h he
      rw [coerce, if_pos (hhost ▸ hi), if_pos hq]

theorem isSome_marking_coerce {c : Configuration} {p : Position}
    (hi : c.isImplicitlyImmutable p.host = true) : (p.coerce c).marking.isSome = true := by
  cases hm : p.marking with
  | none =>
    have hq : (p.coerce c).qualifier? = some .immutable :=
      qualifier?_coerce hi fun h => by simp [isExplicit, hm] at h
    obtain ⟨a, ha, -⟩ := Option.map_eq_some_iff.1 hq
    rw [ha]
    rfl
  | some a => exact (p.defaulted_coerce c).isSome_marking (by rw [hm]; rfl)

/-- The methods that every class inherits have no other qualifiers than these two. -/
theorem Kind.objectMethodQualifier?_cases {kind : Kind} {q : Qualifier}
    (h : kind.objectMethodQualifier? = some q) : q = .readonly ∨ q = .receiverDependant := by
  unfold objectMethodQualifier? at h
  split at h
  · split at h
    · exact Or.inl (Option.some.inj h).symm
    · split at h
      · exact Or.inr (Option.some.inj h).symm
      · cases h
  · split at h
    · exact Or.inl (Option.some.inj h).symm
    · cases h
  · split at h
    · exact Or.inr (Option.some.inj h).symm
    · cases h
  · cases h

end Position

/-- The qualifier that the standard stages give to a position without an annotation. -/
def Configuration.defaultFor (c : Configuration) (kind : Position.Kind) (host : HostType) :
    Qualifier :=
  if c.isImplicitlyImmutable host then .immutable
  else if kind = .staticField then .mutable
  else if kind = .nullLiteral then .bottom
  else (if c.objectMethodDefaults then kind.objectMethodQualifier? else none).getD
    c.defaultQualifier

namespace Stage

theorem step_cases (c : Configuration) (p : Position) (s : Stage) :
    p.Defaulted (s.step c p) := by
  unfold step
  split
  · cases s with
    | implicitImmutability => exact p.defaulted_coerce c
    | staticField => exact p.defaulted_replaceUnlessExplicit .mutable
    | objectMethods =>
      unfold apply
      dsimp only
      cases p.kind.objectMethodQualifier? with
      | none => exact .refl p
      | some q => exact p.defaulted_fill q
    | nullLiteral => exact p.defaulted_fill .bottom
    | generic => exact p.defaulted_fill c.defaultQualifier
  · exact .refl p

theorem run_cases (c : Configuration) (stages : List Stage) (p : Position) :
    p.Defaulted (run c stages p) := by
  induction stages generalizing p with
  | nil => exact .refl p
  | cons s rest ih => exact (step_cases c p s).trans (ih (s.step c p))

theorem isSome_marking_step_generic (c : Configuration) (p : Position) :
    (generic.step c p).marking.isSome = true := by
  unfold step appliesTo
  cases h : p.marking with
  | none => simp [apply, Position.fill, h]
  | some a => simp [h]

/-- After the generic stage every position has a qualifier. -/
theorem isSome_marking_run {c : Configuration} {stages : List Stage} (h : generic ∈ stages)
    (p : Position) : (run c stages p).marking.isSome = true := by
  induction stages generalizing p with
  | nil => cases h
  | cons s rest ih =>
    rcases List.mem_cons.1 h with rfl | h
    · exact (run_cases c rest _).isSome_marking (isSome_marking_step_generic c p)
    · exact ih h (s.step c p)

theorem step_of_not_appliesTo {c : Configuration} {s : Stage} {p : Position}
    (h : s.appliesTo c p = false) : s.step c p = p := by
  simp [step, h]

theorem step_of_appliesTo {c : Configuration} {s : Stage} {p : Position}
    (h : s.appliesTo c p = true) : s.step c p = s.apply c p := by
  simp [step, h]

/-- Stages that leave a position alone one by one leave it alone together. -/
theorem run_eq_self {c : Configuration} {S : List Stage} {p : Position}
    (h : ∀ s ∈ S, s.step c p = p) : run c S p = p := by
  induction S with
  | nil => rfl
  | cons s rest ih =>
    show run c rest (s.step c p) = p
    rw [h s List.mem_cons_self]
    exact ih fun t ht => h t (List.mem_cons_of_mem s ht)

/-- To a position that has a qualifier no stage applies that fills a gap. -/
theorem step_of_marked {c : Configuration} {s : Stage} {p : Position}
    (hm : p.marking.isSome = true) (hi : s ≠ implicitImmutability) (hs : s ≠ staticField) :
    s.step c p = p := by
  obtain ⟨a, ha⟩ := Option.isSome_iff_exists.1 hm
  apply step_of_not_appliesTo
  cases s <;> simp_all [appliesTo]

/-- No stage changes a qualifier where neither of the two that overwrite has a say. -/
theorem run_of_marked {c : Configuration} {p : Position}
    (hi : c.isImplicitlyImmutable p.host = false) (hk : p.kind ≠ .staticField)
    (hm : p.marking.isSome = true) (S : List Stage) : run c S p = p := by
  apply run_eq_self
  intro s _
  by_cases h : s = implicitImmutability
  · subst h
    exact step_of_not_appliesTo hi
  by_cases h' : s = staticField
  · subst h'
    exact step_of_not_appliesTo (by simp [appliesTo, hk])
  · exact step_of_marked hm h h'

/-- A stage `t` that acts as `f` has the last word on the positions in `P`, wherever it stands, if
`f` absorbs what a stage did before it and no stage changes what `f` did. -/
theorem run_eq_of_absorbs {c : Configuration} {t : Stage} {P : Position → Prop}
    {f : Position → Position} (hact : ∀ p, P p → t.step c p = f p)
    (hkeep : ∀ (s : Stage) p, P p → P (s.step c p))
    (habsorb : ∀ (s : Stage) p, P p → f (s.step c p) = f p)
    (hfixed : ∀ (s : Stage) p, P p → s.step c (f p) = f p) {S : List Stage} (ht : t ∈ S)
    {p : Position} (hp : P p) : run c S p = f p := by
  -- Up to the first `t` the value of `f` is carried along, from there on the position stays.
  induction S generalizing p with
  | nil => cases ht
  | cons s rest ih =>
    show run c rest (s.step c p) = f p
    rcases List.mem_cons.1 ht with rfl | ht
    · rw [hact p hp]
      exact run_eq_self fun s _ => hfixed s p hp
    · rw [ih ht (hkeep s p hp), habsorb s p hp]

section Implicit

variable {c : Configuration} {p : Position} (hi : c.isImplicitlyImmutable p.host = true)

include hi

/-- Where only `immutable` is possible, the first stage is the only one that does anything to a
position with a qualifier. -/
theorem step_of_implicit_of_marked (hm : p.marking.isSome = true) (s : Stage) :
    s.step c p = p ∨ s.step c p = p.coerce c := by
  by_cases h : s = implicitImmutability
  · subst h
    exact Or.inr (step_of_appliesTo hi)
  by_cases h' : s = staticField
  · subst h'
    exact Or.inl (step_of_not_appliesTo (by simp [appliesTo, hi]))
  · exact Or.inl (step_of_marked hm h h')

theorem coerce_step (s : Stage) : (s.step c p).coerce c = p.coerce c := by
  cases hm : p.marking with
  | some a =>
    rcases step_of_implicit_of_marked hi (by rw [hm]; rfl) s with h | h
    · rw [h]
    · rw [h, Position.coerce_coerce]
  | none =>
    rcases step_cases c p s with h | ⟨-, q, h⟩
    · rw [h]
    · -- Whatever the stage filled in, `immutable` by default is what becomes of it.
      by_cases hq : q = .immutable <;>
        simp [h, hq, hm, hi, Position.coerce, Position.qualifier?, Position.replaceUnlessExplicit,
          Position.isExplicit]

theorem step_coerce (s : Stage) : s.step c (p.coerce c) = p.coerce c := by
  have hhost : c.isImplicitlyImmutable (p.coerce c).host = true := by
    rw [(p.defaulted_coerce c).host_eq]
    exact hi
  rcases step_of_implicit_of_marked hhost (Position.isSome_marking_coerce hi) s with h | h
  · exact h
  · rw [h, Position.coerce_coerce]

end Implicit

/-- On a type whose values can never change, stages with `implicitImmutability` among them do what
that one does. -/
theorem run_of_implicit {c : Configuration} {S : List Stage} (hS : implicitImmutability ∈ S)
    {p : Position} (hi : c.isImplicitlyImmutable p.host = true) : run c S p = p.coerce c := by
  refine run_eq_of_absorbs (t := implicitImmutability)
    (P := fun p => c.isImplicitlyImmutable p.host = true) (f := fun p => p.coerce c)
    (fun p hp => step_of_appliesTo hp) ?_ (fun s p hp => coerce_step hp s)
    (fun s p hp => step_coerce hp s) hS hi
  intro s p hp
  rw [(step_cases c p s).host_eq]
  exact hp

/-- What the standard stages make of a position without an annotation. -/
theorem run_standard_bare (c : Configuration) (kind : Position.Kind) (host : HostType) :
    run c standard (.bare kind host) =
      ⟨kind, host, some ⟨c.defaultFor kind host, .defaulted⟩⟩ := by
  unfold Configuration.defaultFor
  by_cases hi : c.isImplicitlyImmutable host = true
  · have hhost : c.isImplicitlyImmutable (Position.bare kind host).host = true := hi
    rw [run_of_implicit (by decide) hhost, if_pos hi, Position.coerce, if_pos hhost]
    rfl
  · rw [if_neg hi]
    by_cases hs : kind = .staticField
    · subst hs
      simp [run, standard, step, appliesTo, apply, Position.bare, hi, Position.isExplicit,
        Position.replaceUnlessExplicit]
    · rw [if_neg hs]
      by_cases hn : kind = .nullLiteral
      · subst hn
        simp [run, standard, step, appliesTo, apply, Position.bare, hi, Position.fill,
          Position.Kind.objectMethodQualifier?]
      · rw [if_neg hn]
        cases ho : c.objectMethodDefaults <;> cases hq : kind.objectMethodQualifier? <;>
          simp [run, standard, step, appliesTo, apply, Position.bare, hi, hs, hn, ho, hq,
            Position.fill]

end Stage

namespace Policy

theorem annotate_cases (π : Policy) (p : Position) : p.Defaulted (π.annotate p) := by
  unfold annotate
  dsimp only
  split
  · exact (Stage.run_cases π.config π.stages p).trans (Position.defaulted_coerce _ π.config)
  · exact Stage.run_cases π.config π.stages p

theorem annotate_kind (π : Policy) (p : Position) : (π.annotate p).kind = p.kind :=
  (π.annotate_cases p).kind_eq

theorem annotate_host (π : Policy) (p : Position) : (π.annotate p).host = p.host :=
  (π.annotate_cases p).host_eq

theorem annotate_isExplicit (π : Policy) (p : Position) :
    (π.annotate p).isExplicit = p.isExplicit :=
  (π.annotate_cases p).isExplicit_eq

/-- An annotation written in the program stays. -/
theorem annotate_of_isExplicit (π : Policy) {p : Position} (h : p.isExplicit = true) :
    π.annotate p = p :=
  (π.annotate_cases p).eq_of_isExplicit h

/-- So is a qualifier from elsewhere, where neither of the two stages that overwrite has a say. -/
theorem annotate_of_marked {π : Policy} {p : Position}
    (hi : π.config.isImplicitlyImmutable p.host = false) (hk : p.kind ≠ .staticField)
    (hm : p.marking.isSome = true) : π.annotate p = p := by
  unfold annotate
  dsimp only
  rw [Stage.run_of_marked hi hk hm]
  split
  · exact Position.coerce_of_not_implicit hi
  · rfl

theorem qualifierOf_eq_ok {π : Policy} {p : Position} {q : Qualifier} :
    π.qualifierOf p = .ok q ↔ (π.annotate p).qualifier? = some q := by
  unfold qualifierOf
  dsimp only
  cases (π.annotate p).qualifier? with
  | none => simp
  | some q' => simp

/-- An annotation written in the program is the qualifier of its position. -/
theorem qualifierOf_of_isExplicit (π : Policy) {p : Position} {q : Qualifier}
    (h : p.isExplicit = true) : π.qualifierOf p = .ok q ↔ p.qualifier? = some q := by
  rw [qualifierOf_eq_ok, π.annotate_of_isExplicit h]

/-- With the generic stage among its stages a policy has a qualifier for every position. -/
theorem qualifierOf_total {π : Policy} (h : Stage.generic ∈ π.stages) (p : Position) :
    ∃ q, π.qualifierOf p = .ok q := by
  have hm : (π.annotate p).marking.isSome = true := by
    have hrun := Stage.isSome_marking_run h p (c := π.config)
    unfold annotate
    dsimp only
    split
    · exact (Position.defaulted_coerce _ π.config).isSome_marking hrun
    · exact hrun
  obtain ⟨a, ha⟩ := Option.isSome_iff_exists.1 hm
  refine ⟨a.qualifier, qualifierOf_eq_ok.2 ?_⟩
  unfold Position.qualifier?
  rw [ha]
  rfl

theorem exists_declared {π : Policy} (h : Stage.generic ∈ π.stages) (p : Position) :
    ∃ d, Checker.Declared.ofPosition (π.annotate p) = .ok d := by
  obtain ⟨q, hq⟩ := π.qualifierOf_total h p
  exact ⟨⟨π.annotate p, q, qualifierOf_eq_ok.1 hq⟩, Checker.Declared.ofPosition_eq_ok.2 rfl⟩

theorem generic_mem_standard (c : Configuration) : Stage.generic ∈ (ofConfiguration c).stages := by
  show Stage.generic ∈ Stage.standard
  decide

/-! ## The standard order -/

/-- On a type whose values can never change a position that says nothing else is `immutable`. -/
theorem qualifier?_annotate_of_implicit {c : Configuration} {p : Position}
    (hi : c.isImplicitlyImmutable p.host = true)
    (hp : p.isExplicit = true → p.qualifier? = some .immutable) :
    ((ofConfiguration c).annotate p).qualifier? = some .immutable := by
  have hrun : Stage.run c Stage.standard p = p.coerce c :=
    Stage.run_of_implicit (by decide) hi
  have hco := Position.qualifier?_coerce hi hp
  unfold annotate
  show (if _ then (Stage.run c Stage.standard p).coerce c
    else Stage.run c Stage.standard p).qualifier? = _
  rw [hrun]
  split
  · refine Position.qualifier?_coerce ?_ fun _ => hco
    rw [(p.defaulted_coerce c).host_eq]
    exact hi
  · exact hco

/-- The result of an operator or cast has the qualifier that is written on it; where none is, it
has that of the operands as far as its type allows. -/
theorem qualifierOf_operand (c : Configuration) {kind : Position.Kind}
    (hk : kind = .cast ∨ kind = .binary) (host : HostType) (explicit : Option Qualifier)
    (q : Qualifier) :
    (ofConfiguration c).qualifierOf ((Position.written kind host explicit).fill q .propagated) =
      .ok (explicit.getD (c.settled host q)) := by
  cases explicit with
  | some w =>
    exact (qualifierOf_of_isExplicit (ofConfiguration c) (p := Position.written kind host (some w))
      rfl).2 rfl
  | none =>
    show (ofConfiguration c).qualifierOf ⟨kind, host, some ⟨q, .propagated⟩⟩ =
      .ok (c.settled host q)
    rw [qualifierOf_eq_ok]
    unfold Configuration.settled
    cases hi : c.isImplicitlyImmutable host with
    | true =>
      rw [qualifier?_annotate_of_implicit hi (fun h => by cases h)]
      rfl
    | false =>
      have hs : kind ≠ .staticField := by
        rcases hk with rfl | rfl <;> decide
      rw [annotate_of_marked hi hs rfl]
      rfl

theorem defaultQualifier_eq (c : Configuration) (kind : Position.Kind) (host : HostType) :
    (ofConfiguration c).defaultQualifier kind host = c.defaultFor kind host := by
  have hrun := Stage.run_standard_bare c kind host
  unfold defaultQualifier ofConfiguration
  rw [hrun]
  rfl

/-- A literal has the configured qualifier as far as its type allows. -/
theorem defaultQualifier_localVariable (c : Configuration) (host : HostType) :
    (ofConfiguration c).defaultQualifier .localVariable host =
      c.settled host c.defaultQualifier := by
  rw [defaultQualifier_eq]
  simp [Configuration.defaultFor, Configuration.settled, Position.Kind.objectMethodQualifier?]

theorem defaultQualifier_null (c : Configuration) :
    (ofConfiguration c).defaultQualifier .nullLiteral .null = .bottom := by
  rw [defaultQualifier_eq]
  simp [Configuration.defaultFor, Configuration.isImplicitlyImmutable]

/-- A position without an annotation ends up with the standard qualifier, by default. -/
theorem annotate_bare (c : Configuration) (kind : Position.Kind) (host : HostType) :
    (ofConfiguration c).annotate (.bare kind host) =
      ⟨kind, host, some ⟨c.defaultFor kind host, .defaulted⟩⟩ := by
  have hrun := Stage.run_standard_bare c kind host
  unfold annotate ofConfiguration
  dsimp only
  rw [hrun]
  split
  · -- Where only `immutable` is possible the stages have given that already.
    unfold Position.coerce
    dsimp only
    split
    · next hi => simp [Configuration.defaultFor, hi, Position.qualifier?]
    · rfl
  · rfl

theorem qualifierOf_bare {c : Configuration} {kind : Position.Kind} {host : HostType} :
    (ofConfiguration c).qualifierOf (.bare kind host) = .ok (c.defaultFor kind host) := by
  rw [qualifierOf_eq_ok, annotate_bare]
  rfl

end Policy

end Mutability
