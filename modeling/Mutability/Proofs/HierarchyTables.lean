import Mathlib.Logic.Relation
import Mutability.Qualifier.Hierarchy

/-!
# What the tables of the hierarchy hold

The order of qualifiers is what its direct steps generate (`Qualifier.le_iff_reflTransGen`), and
looking through all common bounds of two qualifiers for the one that is next to them always finds it
(`Qualifier.leastAbove?_eq`, `Qualifier.greatestBelow?_eq`).

The loop that closes a table works in place. A pass through `k` changes neither the row nor the
column of `k`, so that it marks what leads through `k` in the table it starts from and nothing else
(`Hierarchy.Table.pass_iff`). Hence a later pass keeps a table closed at the earlier ones
(`ClosedAt.pass`), and after all passes the table is transitive. With the order put in, the tables
are those of the closed forms (`Hierarchy.build_eq`).
-/

namespace Mutability

namespace Qualifier

/-! ## The order and its steps -/

theorem le_of_covers {a b : Qualifier} (h : Covers b a) : a ≤ b := by
  cases h <;> decide

theorem reflTransGen_substitutable {b : Qualifier} (hb : b ≠ bottom) :
    Relation.ReflTransGen (fun x y => Covers y x) substitutable b := by
  cases b with
  | readonly => exact .tail (.single .substitutable_mutable) .mutable_readonly
  | mutable => exact .single .substitutable_mutable
  | immutable => exact .single .substitutable_immutable
  | polyMutable => exact .single .substitutable_polyMutable
  | receiverDependant => exact .single .substitutable_receiverDependant
  | substitutable => exact .refl
  | bottom => exact absurd rfl hb

theorem reflTransGen_bottom (b : Qualifier) :
    Relation.ReflTransGen (fun x y => Covers y x) bottom b := by
  by_cases hb : b = bottom
  · rw [hb]
  · exact .head .bottom_substitutable (reflTransGen_substitutable hb)

theorem reflTransGen_readonly (a : Qualifier) :
    Relation.ReflTransGen (fun x y => Covers y x) a readonly := by
  cases a with
  | readonly => exact .refl
  | mutable => exact .single .mutable_readonly
  | immutable => exact .single .immutable_readonly
  | polyMutable => exact .single .polyMutable_readonly
  | receiverDependant => exact .single .receiverDependant_readonly
  | substitutable => exact reflTransGen_substitutable (by decide)
  | bottom => exact reflTransGen_bottom readonly

/-- One qualifier is below another exactly if steps lead up from it. -/
theorem le_iff_reflTransGen {a b : Qualifier} :
    a ≤ b ↔ Relation.ReflTransGen (fun x y => Covers y x) a b := by
  constructor
  · intro h
    have hcases : ((a = b ∨ b = readonly) ∨ a = bottom) ∨ a = substitutable ∧ b ≠ bottom := by
      have hle : a.le b = true := h
      simpa only [le, Bool.or_eq_true, Bool.and_eq_true, beq_iff_eq, bne_iff_ne] using hle
    rcases hcases with ((rfl | rfl) | rfl) | ⟨rfl, hb⟩
    · exact .refl
    · exact reflTransGen_readonly a
    · exact reflTransGen_bottom b
    · exact reflTransGen_substitutable hb
  · intro h
    induction h with
    | refl => exact le_refl a
    | tail _ hstep ih => exact le_trans ih (le_of_covers hstep)

/-- The first of the common upper bounds that is below all of them. -/
def leastAbove? (a b : Qualifier) : Option Qualifier :=
  let uppers := all.filter fun u => a ≤ u ∧ b ≤ u
  uppers.find? fun u => uppers.all fun v => u ≤ v

/-- The first of the common lower bounds that is above all of them. -/
def greatestBelow? (a b : Qualifier) : Option Qualifier :=
  let lowers := all.filter fun l => l ≤ a ∧ l ≤ b
  lowers.find? fun l => lowers.all fun v => v ≤ l

/-- Looking for an extremal member finds it if there is one. -/
theorem find?_all_eq_some {α : Type} {r : α → α → Prop} [DecidableRel r]
    (hr : ∀ x y, r x y → r y x → x = y) {xs : List α} {m : α} (hm : m ∈ xs)
    (hall : ∀ x ∈ xs, r m x) : (xs.find? fun x => xs.all fun y => r x y) = some m := by
  have hfound : ∃ x, (xs.find? fun x => xs.all fun y => r x y) = some x := by
    rw [← Option.isSome_iff_exists, List.find?_isSome]
    exact ⟨m, hm, List.all_eq_true.2 fun x hx => decide_eq_true (hall x hx)⟩
  obtain ⟨x, hx⟩ := hfound
  have hxall := List.find?_some hx
  have hxm : r x m := of_decide_eq_true (List.all_eq_true.1 hxall m hm)
  rw [hx, hr x m hxm (hall x (List.mem_of_find?_eq_some hx))]

theorem leastAbove?_eq (a b : Qualifier) : leastAbove? a b = some (join a b) := by
  refine find?_all_eq_some (r := fun x y => x ≤ y) (fun _ _ => le_antisymm) ?_ fun u hu => ?_
  · rw [List.mem_filter]
    exact ⟨mem_all _, decide_eq_true ⟨le_join_left a b, le_join_right a b⟩⟩
  · have habove := of_decide_eq_true (List.mem_filter.1 hu).2
    exact join_le habove.1 habove.2

theorem greatestBelow?_eq (a b : Qualifier) : greatestBelow? a b = some (meet a b) := by
  refine find?_all_eq_some (r := fun x y => y ≤ x) (fun _ _ h h' => le_antisymm h' h) ?_
    fun l hl => ?_
  · rw [List.mem_filter]
    exact ⟨mem_all _, decide_eq_true ⟨meet_le_left a b, meet_le_right a b⟩⟩
  · have hbelow := of_decide_eq_true (List.mem_filter.1 hl).2
    exact le_meet hbelow.1 hbelow.2

end Qualifier

namespace Hierarchy

open Qualifier

namespace Table

/-! ## One pass -/

theorem mark_iff {t : Table} {a b x y : Qualifier} :
    (t.mark a b).holds x y = true ↔ (x = a ∧ y = b) ∨ t.holds x y = true := by
  show (if x = a ∧ y = b then true else t.holds x y) = true ↔ _
  by_cases h : x = a ∧ y = b
  · simp [h]
  · simp [h]

theorem relax_iff {t : Table} {k i j x y : Qualifier} :
    (t.relax k i j).holds x y = true ↔
      t.holds x y = true ∨ (x = i ∧ y = j ∧ t.holds i k = true ∧ t.holds k j = true) := by
  unfold relax
  split
  · next h =>
    rw [Bool.and_eq_true] at h
    simp only [mark_iff, h, and_self, and_true, or_comm]
  · next h =>
    rw [Bool.and_eq_true] at h
    simp only [h, and_false, or_false]

-- A pass reads the column and the row of its pivot only, and leaves both as they are.

theorem relax_column {t : Table} {k i j x : Qualifier} :
    (t.relax k i j).holds x k = true ↔ t.holds x k = true := by
  rw [relax_iff]
  exact ⟨fun h => h.elim id fun ⟨hx, _, hik, _⟩ => hx ▸ hik, Or.inl⟩

theorem relax_row {t : Table} {k i j y : Qualifier} :
    (t.relax k i j).holds k y = true ↔ t.holds k y = true := by
  rw [relax_iff]
  exact ⟨fun h => h.elim id fun ⟨_, hy, _, hkj⟩ => hy ▸ hkj, Or.inl⟩

theorem foldl_relax_iff {js : List Qualifier} {t : Table} {k i x y : Qualifier} :
    (js.foldl (fun t j => t.relax k i j) t).holds x y = true ↔
      t.holds x y = true ∨ (x = i ∧ y ∈ js ∧ t.holds i k = true ∧ t.holds k y = true) := by
  induction js generalizing t with
  | nil => simp
  | cons j rest ih =>
    rw [List.foldl_cons, ih, relax_column, relax_row, relax_iff, List.mem_cons]
    constructor
    · rintro ((h | ⟨rfl, rfl, h⟩) | ⟨rfl, hy, h⟩)
      · exact Or.inl h
      · exact Or.inr ⟨rfl, Or.inl rfl, h⟩
      · exact Or.inr ⟨rfl, Or.inr hy, h⟩
    · rintro (h | ⟨rfl, rfl | hy, h⟩)
      · exact Or.inl (Or.inl h)
      · exact Or.inl (Or.inr ⟨rfl, rfl, h⟩)
      · exact Or.inr ⟨rfl, hy, h⟩

theorem relaxRow_iff {t : Table} {k i x y : Qualifier} :
    (t.relaxRow k i).holds x y = true ↔
      t.holds x y = true ∨ (x = i ∧ t.holds i k = true ∧ t.holds k y = true) := by
  unfold relaxRow
  rw [foldl_relax_iff]
  simp only [mem_all, true_and]

theorem foldl_relaxRow_iff {is : List Qualifier} {t : Table} {k x y : Qualifier} :
    (is.foldl (fun t i => t.relaxRow k i) t).holds x y = true ↔
      t.holds x y = true ∨ (x ∈ is ∧ t.holds x k = true ∧ t.holds k y = true) := by
  induction is generalizing t with
  | nil => simp
  | cons i rest ih =>
    have hcolumn : (t.relaxRow k i).holds x k = true ↔ t.holds x k = true := by
      rw [relaxRow_iff]
      exact ⟨fun h => h.elim id fun ⟨hx, h, _⟩ => hx ▸ h, Or.inl⟩
    have hrow : (t.relaxRow k i).holds k y = true ↔ t.holds k y = true := by
      rw [relaxRow_iff]
      exact ⟨fun h => h.elim id fun h => h.2.2, Or.inl⟩
    rw [List.foldl_cons, ih, hcolumn, hrow, relaxRow_iff, List.mem_cons]
    constructor
    · rintro ((h | ⟨rfl, h⟩) | ⟨hx, h⟩)
      · exact Or.inl h
      · exact Or.inr ⟨Or.inl rfl, h⟩
      · exact Or.inr ⟨Or.inr hx, h⟩
    · rintro (h | ⟨rfl | hx, h⟩)
      · exact Or.inl (Or.inl h)
      · exact Or.inl (Or.inr ⟨rfl, h⟩)
      · exact Or.inr ⟨hx, h⟩

/-- A pass marks what leads through `k` in the table that it starts from. -/
theorem pass_iff {t : Table} {k x y : Qualifier} :
    (t.pass k).holds x y = true ↔
      t.holds x y = true ∨ (t.holds x k = true ∧ t.holds k y = true) := by
  unfold pass
  rw [foldl_relaxRow_iff]
  simp only [mem_all, true_and]

/-! ## All passes -/

/-- What leads through `k` is marked. -/
def ClosedAt (t : Table) (k : Qualifier) : Prop :=
  ∀ x y, t.holds x k = true → t.holds k y = true → t.holds x y = true

theorem closedAt_pass (t : Table) (k : Qualifier) : (t.pass k).ClosedAt k := by
  intro x y hx hy
  rw [pass_iff] at hx hy ⊢
  exact Or.inr ⟨hx.elim id And.left, hy.elim id And.right⟩

theorem ClosedAt.pass {t : Table} {l : Qualifier} (h : t.ClosedAt l) (k : Qualifier) :
    (t.pass k).ClosedAt l := by
  intro x y hx hy
  rw [pass_iff] at hx hy ⊢
  -- Either way may be old or lead through `k`; only two old ones meet in `l` alone.
  rcases hx with hx | ⟨hxk, hkl⟩ <;> rcases hy with hy | ⟨hlk, hky⟩
  · exact Or.inl (h x y hx hy)
  · exact Or.inr ⟨h x k hx hlk, hky⟩
  · exact Or.inr ⟨hxk, h k y hkl hy⟩
  · exact Or.inr ⟨hxk, hky⟩

theorem closedAt_foldl_pass {ks : List Qualifier} {t : Table} {k : Qualifier}
    (h : k ∈ ks ∨ t.ClosedAt k) : (ks.foldl Table.pass t).ClosedAt k := by
  induction ks generalizing t with
  | nil => exact h.resolve_left List.not_mem_nil
  | cons l rest ih =>
    rw [List.foldl_cons]
    apply ih
    rw [List.mem_cons] at h
    rcases h with (rfl | hk) | h
    · exact Or.inr (closedAt_pass t k)
    · exact Or.inl hk
    · exact Or.inr (h.pass l)

theorem close_trans (t : Table) {x k y : Qualifier} (hx : t.close.holds x k = true)
    (hy : t.close.holds k y = true) : t.close.holds x y = true := by
  have hclosed : t.close.ClosedAt k := by
    unfold close
    exact closedAt_foldl_pass (Or.inl (mem_all k))
  exact hclosed x y hx hy

theorem close_of_entry {t : Table} {x y : Qualifier} (h : t.holds x y = true) :
    t.close.holds x y = true := by
  unfold close
  generalize all = ks
  induction ks generalizing t with
  | nil => exact h
  | cons k rest ih =>
    have hpass : (t.pass k).holds x y = true := pass_iff.2 (Or.inl h)
    rw [List.foldl_cons]
    exact ih hpass

/-- A closed table stays within every transitive relation that holds the table. -/
theorem close_sound {t : Table} {r : Qualifier → Qualifier → Prop}
    (htrans : ∀ {x k y}, r x k → r k y → r x y) (h : ∀ {x y}, t.holds x y = true → r x y)
    {x y : Qualifier} (hxy : t.close.holds x y = true) : r x y := by
  unfold close at hxy
  generalize all = ks at hxy
  induction ks generalizing t with
  | nil => exact h hxy
  | cons k rest ih =>
    have hpass : ∀ {x y}, (t.pass k).holds x y = true → r x y := by
      intro x y hxy
      rcases pass_iff.1 hxy with hold | ⟨hxk, hky⟩
      · exact h hold
      · exact htrans (h hxk) (h hky)
    rw [List.foldl_cons] at hxy
    exact ih hpass hxy

/-! ## The direct steps -/

theorem foldl_mark_iff {es : List (Qualifier × Qualifier)} {t : Table} {x y : Qualifier} :
    (es.foldl (fun t e => t.mark e.1 e.2) t).holds x y = true ↔
      (x, y) ∈ es ∨ t.holds x y = true := by
  induction es generalizing t with
  | nil => simp
  | cons e rest ih =>
    rw [List.foldl_cons, ih, mark_iff, List.mem_cons, Prod.ext_iff, or_assoc, or_left_comm]

theorem ofSteps_iff {edges : List (Qualifier × Qualifier)} {x y : Qualifier} :
    (ofSteps edges).holds x y = true ↔ (x, y) ∈ edges ∨ x = y := by
  have hreflexive (t : Table) : all.foldl (fun t q => t.mark q q) t =
      (all.map fun q => (q, q)).foldl (fun t e => t.mark e.1 e.2) t := by
    rw [List.foldl_map]
  have hdiagonal : (x, y) ∈ all.map (fun q => (q, q)) ↔ x = y := by
    simp [mem_all]
  unfold ofSteps
  dsimp only
  rw [foldl_mark_iff, hreflexive, foldl_mark_iff, hdiagonal]
  simp only [Bool.false_eq_true, or_false]

/-- Closing the table of a list of steps leads wherever the steps lead. -/
theorem close_ofSteps_iff {edges : List (Qualifier × Qualifier)} {x y : Qualifier} :
    (ofSteps edges).close.holds x y = true ↔
      Relation.ReflTransGen (fun x y => (x, y) ∈ edges) x y := by
  constructor
  · refine close_sound (r := Relation.ReflTransGen fun x y => (x, y) ∈ edges) .trans
      fun {x y} h => ?_
    rcases ofSteps_iff.1 h with hstep | rfl
    · exact .single hstep
    · exact .refl
  · intro h
    induction h with
    | refl => exact close_of_entry (ofSteps_iff.2 (Or.inr rfl))
    | tail _ hstep ih => exact close_trans _ ih (close_of_entry (ofSteps_iff.2 (Or.inl hstep)))

end Table

/-! ## The hierarchy -/

theorem mem_directEdges_iff {a b : Qualifier} : (a, b) ∈ directEdges ↔ Covers b a := by
  constructor
  · intro h
    simp only [directEdges, List.mem_cons, Prod.mk.injEq, List.not_mem_nil, or_false] at h
    rcases h with ⟨rfl, rfl⟩ | ⟨rfl, rfl⟩ | ⟨rfl, rfl⟩ | ⟨rfl, rfl⟩ | ⟨rfl, rfl⟩ | ⟨rfl, rfl⟩ |
      ⟨rfl, rfl⟩ | ⟨rfl, rfl⟩ | ⟨rfl, rfl⟩ <;> constructor
  · intro h
    cases h <;> decide

theorem close_directEdges : (Table.ofSteps directEdges).close = ⟨le⟩ := by
  have hholds : (Table.ofSteps directEdges).close.holds = le := by
    funext a b
    rw [Bool.eq_iff_iff, Table.close_ofSteps_iff]
    simp only [mem_directEdges_iff]
    exact le_iff_reflTransGen.symm
  rw [← hholds]

theorem decide_le_eq (a b : Qualifier) : decide (a ≤ b) = a.le b :=
  Bool.decide_eq_true

theorem leastOf_le (a b : Qualifier) : Table.leastOf ⟨le⟩ a b = a.join b := by
  have hsearch : Table.leastOf ⟨le⟩ a b = (leastAbove? a b).getD .readonly := by
    simp only [Table.leastOf, leastAbove?, Bool.decide_and, decide_le_eq]
  rw [hsearch, leastAbove?_eq]
  rfl

theorem greatestOf_le (a b : Qualifier) : Table.greatestOf ⟨le⟩ a b = a.meet b := by
  have hsearch : Table.greatestOf ⟨le⟩ a b = (greatestBelow? a b).getD .bottom := by
    simp only [Table.greatestOf, greatestBelow?, Bool.decide_and, decide_le_eq]
  rw [hsearch, greatestBelow?_eq]
  rfl

/-- The tables hold the order, the joins and the meets. -/
theorem build_eq : build = ⟨⟨le⟩, join, meet⟩ := by
  unfold build
  rw [close_directEdges]
  dsimp only
  rw [funext fun a => funext (leastOf_le a), funext fun a => funext (greatestOf_le a)]

end Hierarchy

end Mutability
