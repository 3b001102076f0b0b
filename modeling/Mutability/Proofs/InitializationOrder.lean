import Mathlib.Order.Bounds.Basic
import Mathlib.Order.Lattice
import Mutability.Initialization

/-!
# The lattice of object states

States of initialization are partially ordered and any two have a least upper bound: what two
different states have in common is the depth down to which both are surely initialized
(`InitState.le_unknownInitialization`, `InitState.join_cases`). The pairs of a qualifier and a state
of initialization inherit this componentwise. The join of a list is therefore the least state above
all its members (`ObjectState.joinAll?_eq_some`) and depends on nothing but which these are
(`ObjectState.joinAll?_congr`).
-/

namespace Mutability

namespace InitState

/-! ## States of initialization -/

theorem le_refl (a : InitState) : a ≤ a := by
  show a.le a = true
  cases a <;> simp [le]

theorem le_trans {a b c : InitState} (hab : a ≤ b) (hbc : b ≤ c) : a ≤ c := by
  change a.le b = true at hab
  change b.le c = true at hbc
  show a.le c = true
  cases a <;> cases b <;> cases c <;> simp_all [le]
  all_goals exact UInt32.le_trans hbc hab

theorem le_antisymm {a b : InitState} (hab : a ≤ b) (hba : b ≤ a) : a = b := by
  change a.le b = true at hab
  change b.le a = true at hba
  cases a <;> cases b <;> simp_all [le]
  exact UInt32.le_antisymm hba hab

theorem bottom_le (a : InitState) : bottom ≤ a := rfl

/-- A state may stand for one that is known only by its depth if it is deep enough. -/
theorem le_unknownInitialization {a : InitState} {n : UInt32} :
    a ≤ unknownInitialization n ↔ n ≤ a.depth := by
  show a.le (unknownInitialization n) = true ↔ n ≤ a.depth
  have hmax : n ≤ 0xFFFFFFFF := UInt32.le_iff_toNat_le.2 (Nat.le_of_lt_succ n.toNat_lt)
  cases a <;> simp [le, depth, hmax]

/-- The only states above two different ones are those known only by their depth. -/
theorem eq_unknownInitialization_of_le {a b c : InitState} (ha : a ≠ bottom) (hb : b ≠ bottom)
    (hne : a ≠ b) (hac : a ≤ c) (hbc : b ≤ c) : ∃ n, c = unknownInitialization n := by
  change a.le c = true at hac
  change b.le c = true at hbc
  cases c with
  | unknownInitialization n => exact ⟨n, rfl⟩
  | initialized => cases a <;> cases b <;> simp_all [le]
  | underInitialization n => cases a <;> cases b <;> simp_all [le]
  | bottom => cases a <;> simp_all [le]

theorem join_cases (a b : InitState) :
    (a = bottom ∧ a.join b = b) ∨ (b = bottom ∧ a.join b = a) ∨ (a = b ∧ a.join b = a) ∨
      (a ≠ bottom ∧ b ≠ bottom ∧ a ≠ b ∧
        a.join b = unknownInitialization (if a.depth ≤ b.depth then a.depth else b.depth)) := by
  by_cases ha : a = bottom
  · subst ha
    exact Or.inl ⟨rfl, rfl⟩
  by_cases hb : b = bottom
  · subst hb
    refine Or.inr (Or.inl ⟨rfl, ?_⟩)
    cases a <;> rfl
  have hjoin : a.join b = if a = b then a
      else unknownInitialization (if a.depth ≤ b.depth then a.depth else b.depth) := by
    cases a <;> cases b <;> first | rfl | contradiction
  rw [hjoin]
  by_cases hab : a = b
  · exact Or.inr (Or.inr (Or.inl ⟨hab, if_pos hab⟩))
  · exact Or.inr (Or.inr (Or.inr ⟨ha, hb, hab, if_neg hab⟩))

theorem le_join_left (a b : InitState) : a ≤ a.join b := by
  rcases join_cases a b with ⟨rfl, h⟩ | ⟨-, h⟩ | ⟨-, h⟩ | ⟨-, -, -, h⟩
  · exact bottom_le _
  · rw [h]; exact le_refl a
  · rw [h]; exact le_refl a
  · rw [h, le_unknownInitialization]
    split
    · exact UInt32.le_refl _
    · next hlt => exact UInt32.le_of_lt (UInt32.not_le.1 hlt)

theorem le_join_right (a b : InitState) : b ≤ a.join b := by
  rcases join_cases a b with ⟨-, h⟩ | ⟨rfl, h⟩ | ⟨rfl, h⟩ | ⟨-, -, -, h⟩
  · rw [h]; exact le_refl b
  · exact bottom_le _
  · rw [h]; exact le_refl a
  · rw [h, le_unknownInitialization]
    split
    · next hle => exact hle
    · exact UInt32.le_refl _

theorem join_le {a b c : InitState} (hac : a ≤ c) (hbc : b ≤ c) : a.join b ≤ c := by
  rcases join_cases a b with ⟨-, h⟩ | ⟨-, h⟩ | ⟨-, h⟩ | ⟨ha, hb, hab, h⟩
  · rw [h]; exact hbc
  · rw [h]; exact hac
  · rw [h]; exact hac
  · obtain ⟨n, rfl⟩ := eq_unknownInitialization_of_le ha hb hab hac hbc
    rw [h, le_unknownInitialization]
    show n ≤ if a.depth ≤ b.depth then a.depth else b.depth
    split
    · exact le_unknownInitialization.1 hac
    · exact le_unknownInitialization.1 hbc

end InitState

namespace ObjectState

/-! ## Object states -/

theorem le_iff {a b : ObjectState} :
    a ≤ b ↔ a.mutability ≤ b.mutability ∧ a.initialization ≤ b.initialization := by
  show (a.mutability.le b.mutability && a.initialization.le b.initialization) = true ↔ _
  rw [Bool.and_eq_true]
  rfl

instance : PartialOrder ObjectState where
  le_refl a := le_iff.2 ⟨Qualifier.le_refl _, InitState.le_refl _⟩
  le_trans a b c hab hbc := by
    rw [le_iff] at hab hbc ⊢
    exact ⟨Qualifier.le_trans hab.1 hbc.1, InitState.le_trans hab.2 hbc.2⟩
  le_antisymm a b hab hba := by
    rw [le_iff] at hab hba
    obtain ⟨q, s⟩ := a
    obtain ⟨q', s'⟩ := b
    obtain rfl : q = q' := Qualifier.le_antisymm hab.1 hba.1
    obtain rfl : s = s' := InitState.le_antisymm hab.2 hba.2
    rfl

instance : SemilatticeSup ObjectState where
  sup := join
  le_sup_left a b := le_iff.2 ⟨Qualifier.le_join_left _ _, InitState.le_join_left _ _⟩
  le_sup_right a b := le_iff.2 ⟨Qualifier.le_join_right _ _, InitState.le_join_right _ _⟩
  sup_le a b c hac hbc := by
    rw [le_iff] at hac hbc ⊢
    exact ⟨Qualifier.join_le hac.1 hbc.1, InitState.join_le hac.2 hbc.2⟩

theorem foldl_join_le {o u : ObjectState} {os : List ObjectState} :
    os.foldl join o ≤ u ↔ o ≤ u ∧ ∀ a ∈ os, a ≤ u := by
  induction os generalizing o with
  | nil => simp
  | cons a rest ih =>
    have hjoin : o.join a ≤ u ↔ o ≤ u ∧ a ≤ u := sup_le_iff
    rw [List.foldl_cons, ih, hjoin, List.forall_mem_cons, and_assoc]

/-- The join of a list is the state that is below exactly those that all its members are below. -/
theorem joinAll?_eq_some {os : List ObjectState} {o : ObjectState} :
    joinAll? os = some o ↔ os ≠ [] ∧ ∀ u, o ≤ u ↔ ∀ a ∈ os, a ≤ u := by
  cases os with
  | nil => simp [joinAll?]
  | cons a rest =>
    have hbounds : ∀ u, rest.foldl join a ≤ u ↔ ∀ x ∈ a :: rest, x ≤ u := by
      intro u
      rw [foldl_join_le, List.forall_mem_cons]
    constructor
    · intro h
      obtain rfl := Option.some.inj h
      exact ⟨List.cons_ne_nil a rest, hbounds⟩
    · rintro ⟨-, ho⟩
      exact congrArg some (eq_of_forall_ge_iff fun u => (hbounds u).trans (ho u).symm)

theorem exists_joinAll? {os : List ObjectState} (h : os ≠ []) : ∃ o, joinAll? os = some o := by
  cases os with
  | nil => exact absurd rfl h
  | cons a rest => exact ⟨_, rfl⟩

/-- The join of a list depends neither on the order of its members nor on how often they come. -/
theorem joinAll?_congr {os os' : List ObjectState} (h : ∀ a, a ∈ os ↔ a ∈ os') :
    joinAll? os = joinAll? os' := by
  have hbounds : ∀ u, (∀ a ∈ os, a ≤ u) ↔ ∀ a ∈ os', a ≤ u :=
    fun u => forall_congr' fun a => by rw [h a]
  have hnil : os = [] ↔ os' = [] := by
    simp only [List.eq_nil_iff_forall_not_mem, h]
  refine Option.ext fun o => ?_
  simp only [joinAll?_eq_some, hbounds, ne_eq, hnil]

theorem joinAll?_perm {os os' : List ObjectState} (h : os.Perm os') :
    joinAll? os = joinAll? os' :=
  joinAll?_congr fun _ => h.mem_iff

theorem joinAll?_concat {os : List ObjectState} {o : ObjectState} (h : joinAll? os = some o)
    (a : ObjectState) : joinAll? (os ++ [a]) = some (o.join a) := by
  cases os with
  | nil => cases h
  | cons b rest =>
    obtain rfl := Option.some.inj h
    show some ((rest ++ [a]).foldl join b) = _
    rw [List.foldl_append]
    rfl

theorem isLUB_joinAll? {os : List ObjectState} {o : ObjectState} (h : joinAll? os = some o) :
    IsLUB {a | a ∈ os} o := by
  have hbounds := (joinAll?_eq_some.1 h).2
  exact ⟨fun a ha => (hbounds o).1 le_rfl a ha, fun u hu => (hbounds u).2 fun a ha => hu ha⟩

/-- Object states are partially ordered, and the join of two is their least upper bound. So the
join of a list of them, taken from left to right, is the least upper bound of its members. It is
the same for every list with these members, and each step goes up: from the join of those before,
and from the member that is joined. -/
theorem join_semilattice :
    (∀ a : ObjectState, a ≤ a) ∧ (∀ a b c : ObjectState, a ≤ b → b ≤ c → a ≤ c) ∧
    (∀ a b : ObjectState, a ≤ b → b ≤ a → a = b) ∧
    (∀ a b : ObjectState, a ≤ a.join b ∧ b ≤ a.join b ∧ ∀ u, a ≤ u → b ≤ u → a.join b ≤ u) ∧
    ∀ os : List ObjectState, os ≠ [] → ∃ o, joinAll? os = some o ∧
      IsLUB {a | a ∈ os} o ∧
      (∀ os', (∀ a, a ∈ os' ↔ a ∈ os) → joinAll? os' = some o) ∧
      ∀ a, joinAll? (os ++ [a]) = some (o.join a) ∧ o ≤ o.join a ∧ a ≤ o.join a := by
  refine ⟨fun _ => le_rfl, fun _ _ _ => le_trans, fun _ _ => le_antisymm, ?_, ?_⟩
  · intro a b
    exact ⟨le_sup_left, le_sup_right, fun u => sup_le⟩
  · intro os hne
    obtain ⟨o, ho⟩ := exists_joinAll? hne
    refine ⟨o, ho, isLUB_joinAll? ho, fun os' h => (joinAll?_congr h).trans ho, fun a => ?_⟩
    exact ⟨joinAll?_concat ho a, le_sup_left, le_sup_right⟩

/-- The greatest depth is a depth like any other: an object under initialization down to it is not
yet initialized, and the join with one that is forgets the difference. -/
theorem join_semilattice_greatest_depth :
    let deep : ObjectState := ⟨.mutable, .underInitialization 0xFFFFFFFF⟩
    let done : ObjectState := ⟨.immutable, .initialized⟩
    let o : ObjectState := ⟨.readonly, .unknownInitialization 0xFFFFFFFF⟩
    ¬ deep ≤ done ∧ ¬ done ≤ deep ∧ IsLUB {a | a ∈ [deep, done]} o ∧
      joinAll? [done, deep, done] = some o ∧
      joinAll? [deep, done, ⟨.bottom, .unknownInitialization 0⟩] =
        some ⟨.readonly, .unknownInitialization 0⟩ := by
  intro deep done o
  obtain ⟨o', ho', hlub, hsame, hstep⟩ :=
    join_semilattice.2.2.2.2 [deep, done] (List.cons_ne_nil _ _)
  obtain rfl : o' = o := Option.some.inj (ho'.symm.trans (by decide))
  refine ⟨by decide, by decide, hlub, hsame _ fun a => ?_, (hstep _).1.trans (by decide)⟩
  simp only [List.mem_cons, List.not_mem_nil, or_false]
  constructor
  · rintro (h | h | h)
    exacts [Or.inr h, Or.inl h, Or.inr h]
  · rintro (h | h)
    exacts [Or.inr (Or.inl h), Or.inl h]

end ObjectState

end Mutability
