import Mutability.Proofs.RepeatedDefaulting

/-!
# What comes before what

The standard stages, one after the other, amount to a list of rules of which the first that fits
decides (`Configuration.byPriority`):

1. what is written in the program stands;
2. on a type whose values can never change the qualifier is `immutable`;
3. on any other static field it is `mutable`, whatever was there;
4. a qualifier that is there stands;
5. the methods that every class inherits have their qualifiers, where the configuration says so;
6. the null literal is `bottom`;
7. everything else has the configured qualifier.

All questions about the qualifier of a single position have the answer of these rules, so none of
them fails (`standard_by_priority`).
-/

namespace Mutability

/-- The positions in the signatures of the methods that every class inherits, with their
qualifiers. -/
def Position.Kind.inherited : List (Position.Kind × Qualifier) :=
  [ (.receiver "toString", .readonly), (.receiver "hashCode", .readonly),
    (.receiver "equals", .readonly), (.parameter "equals" 0, .readonly),
    (.receiver "clone", .receiverDependant), (.methodReturn "clone", .receiverDependant) ]

/-- The forms of trees that can be assigned. -/
def TreeKind.targets : List TreeKind :=
  [declaration, identifier, memberSelect, arrayAccess, typeTree]

namespace Configuration

/-- The qualifier of a position about which nothing is known but its role. -/
def gapQualifier (c : Configuration) (kind : Position.Kind) : Qualifier :=
  match c.objectMethodDefaults, Position.Kind.inherited.lookup kind with
  | true, some q => q
  | _, _ => if kind = .nullLiteral then .bottom else c.defaultQualifier

/-- The qualifier of a position and where it comes from, by the first rule that fits. -/
def byPriority (c : Configuration) (p : Position) : Marking :=
  (p.marking.filter fun a => a.origin = .explicit).getD
    (if c.isImplicitlyImmutable p.host then
      (p.marking.filter fun a => a.qualifier = .immutable).getD ⟨.immutable, .defaulted⟩
    else if p.kind = .staticField then ⟨.mutable, .defaulted⟩
    else p.marking.getD ⟨c.gapQualifier p.kind, .defaulted⟩)

end Configuration

theorem Position.Kind.lookup_inherited (kind : Position.Kind) :
    inherited.lookup kind = kind.objectMethodQualifier? := by
  unfold inherited
  simp only [OrderedMap.lookup_cons_eq_ite, List.lookup_nil]
  cases kind with
  | receiver method =>
    by_cases hs : method = "toString"
    · simp [objectMethodQualifier?, hs]
    by_cases hh : method = "hashCode"
    · simp [objectMethodQualifier?, hh]
    · simp [objectMethodQualifier?, hs, hh]
  | parameter method index => simp [objectMethodQualifier?]
  | methodReturn method => simp [objectMethodQualifier?]
  | staticField => rfl
  | instanceField => rfl
  | constructorReturn => rfl
  | localVariable => rfl
  | cast => rfl
  | binary => rfl
  | nullLiteral => rfl
  | newObject => rfl

theorem TreeKind.mem_targets (tree : TreeKind) : tree ∈ targets ↔ tree.isTarget = true := by
  cases tree <;> decide

namespace Configuration

theorem gapQualifier_eq (c : Configuration) {kind : Position.Kind} {host : HostType}
    (hi : c.isImplicitlyImmutable host = false) (hk : kind ≠ .staticField) :
    c.defaultFor kind host = c.gapQualifier kind := by
  unfold defaultFor gapQualifier
  rw [hi, if_neg (by decide), if_neg hk, Position.Kind.lookup_inherited]
  -- The null literal is in no signature, so it does not matter which of the two is asked first.
  by_cases hn : kind = .nullLiteral
  · subst hn
    simp [Position.Kind.objectMethodQualifier?]
  · rw [if_neg hn]
    cases c.objectMethodDefaults <;> cases kind.objectMethodQualifier? <;> simp [hn]

section Rules

variable {c : Configuration} {p : Position}

theorem byPriority_of_isExplicit (h : p.isExplicit = true) :
    p = { p with marking := some (c.byPriority p) } := by
  obtain ⟨kind, host, marking⟩ := p
  cases marking with
  | none => cases h
  | some a =>
    have ha : a.origin = .explicit := beq_iff_eq.1 h
    simp [byPriority, Option.filter_some, ha]

theorem byPriority_of_not_isExplicit (h : p.isExplicit = false) :
    c.byPriority p = if c.isImplicitlyImmutable p.host then
        (p.marking.filter fun a => a.qualifier = .immutable).getD ⟨.immutable, .defaulted⟩
      else if p.kind = .staticField then ⟨.mutable, .defaulted⟩
      else p.marking.getD ⟨c.gapQualifier p.kind, .defaulted⟩ := by
  have hnone : (p.marking.filter fun a => a.origin = .explicit) = none := by
    cases hm : p.marking with
    | none => rfl
    | some a =>
      have ha : ¬ a.origin = .explicit := by simpa [Position.isExplicit, hm] using h
      simp [Option.filter_some, ha]
  rw [byPriority, hnone]
  rfl

end Rules

end Configuration

/-- Coercion keeps `immutable` with its origin and puts it in place of anything else that is not
written. -/
theorem Position.coerce_of_implicit {c : Configuration} {p : Position} (he : p.isExplicit = false)
    (hi : c.isImplicitlyImmutable p.host = true) :
    p.coerce c = { p with
      marking := some ((p.marking.filter fun a => a.qualifier = .immutable).getD
        ⟨.immutable, .defaulted⟩) } := by
  rw [coerce, if_pos hi]
  cases hm : p.marking with
  | none => simp [qualifier?, replaceUnlessExplicit, he, hm]
  | some a =>
    by_cases ha : a.qualifier = .immutable
    · have hq : p.qualifier? = some .immutable := by simp [qualifier?, hm, ha]
      rw [if_pos hq, Option.filter_some, if_pos (by simp [ha]), Option.getD_some, ← hm]
    · simp [qualifier?, replaceUnlessExplicit, Option.filter_some, he, hm, ha]

theorem Stage.run_standard_of_not_implicit {c : Configuration} {p : Position}
    (he : p.isExplicit = false) (hi : c.isImplicitlyImmutable p.host = false) :
    run c standard p = { p with
      marking := some (if p.kind = .staticField then ⟨.mutable, .defaulted⟩
        else p.marking.getD ⟨c.gapQualifier p.kind, .defaulted⟩) } := by
  by_cases hk : p.kind = .staticField
  · rw [run_of_staticField (by decide) hk hi, if_pos hk, Position.replaceUnlessExplicit, he]
    rfl
  · rw [if_neg hk]
    obtain ⟨kind, host, marking⟩ := p
    cases marking with
    | none =>
      rw [← c.gapQualifier_eq hi hk]
      exact run_standard_bare c kind host
    | some a => exact run_of_marked hi hk rfl standard

namespace Policy

variable {c : Configuration} {p : Position}

/-- On a type whose values can never change, the standard stages coerce and do nothing else. -/
theorem annotate_standard_of_implicit (hi : c.isImplicitlyImmutable p.host = true) :
    (ofConfiguration c).annotate p = p.coerce c := by
  by_cases h : p.kind = .binary ∨ p.kind = .cast
  · exact (ofConfiguration c).annotate_of_operand hi h
  · rw [(ofConfiguration c).annotate_of_not_operand h]
    exact Stage.run_of_implicit (S := Stage.standard) (by decide) hi

/-- The standard stages do what the first rule that fits says. -/
theorem annotate_standard (c : Configuration) (p : Position) :
    (ofConfiguration c).annotate p = { p with marking := some (c.byPriority p) } := by
  cases he : p.isExplicit with
  | true =>
    rw [(ofConfiguration c).annotate_of_isExplicit he]
    exact Configuration.byPriority_of_isExplicit he
  | false =>
    rw [Configuration.byPriority_of_not_isExplicit he]
    cases hi : c.isImplicitlyImmutable p.host with
    | true =>
      rw [if_pos rfl, annotate_standard_of_implicit hi]
      exact Position.coerce_of_implicit he hi
    | false =>
      rw [if_neg (by decide), (ofConfiguration c).annotate_of_not_implicit hi]
      exact Stage.run_standard_of_not_implicit he hi

end Policy

/-- The standard stages implement the rules: they are what becomes of every position, what its
qualifier is, also as the target of an assignment, where only the form of the tree can be wrong, and
what the qualifier by default of a role and a type is. -/
theorem standard_by_priority (c : Configuration) :
    (∀ p, (Policy.ofConfiguration c).annotate p = { p with marking := some (c.byPriority p) }) ∧
    (∀ p, (Policy.ofConfiguration c).qualifierOf p = .ok (c.byPriority p).qualifier) ∧
    (∀ tree p, (Policy.ofConfiguration c).targetQualifier tree p =
      if tree ∈ TreeKind.targets then .ok (c.byPriority p).qualifier
      else .error (.unexpectedTarget tree)) ∧
    ∀ kind host, (Policy.ofConfiguration c).qualifierOf (.bare kind host) =
      .ok ((Policy.ofConfiguration c).defaultQualifier kind host) := by
  have hqualifier : ∀ p, (Policy.ofConfiguration c).qualifierOf p =
      .ok (c.byPriority p).qualifier := by
    intro p
    rw [Policy.qualifierOf_eq_ok, Policy.annotate_standard]
    rfl
  refine ⟨Policy.annotate_standard c, hqualifier, fun tree p => ?_, fun kind host => ?_⟩
  · simp only [Policy.targetQualifier, hqualifier, TreeKind.mem_targets]
  · rw [Policy.qualifierOf_bare, Policy.defaultQualifier_eq]

/-- Only the first parameter of `equals` has a rule of its own, and only where nothing is known. -/
example :
    let π := Policy.ofConfiguration .standard
    let object := HostType.declared "java.lang.Object"
    (π.annotate (.bare (.parameter "equals" 0) object)).qualifier? = some .readonly ∧
      (π.annotate (.bare (.parameter "equals" 1) object)).qualifier? = some .mutable ∧
      π.annotate ⟨.parameter "equals" 0, object, some ⟨.bottom, .refined⟩⟩ =
        ⟨.parameter "equals" 0, object, some ⟨.bottom, .refined⟩⟩ := by
  decide

end Mutability
