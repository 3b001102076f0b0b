import Mutability.Qualifier.Basic

/-!
# The qualifier lattice

`readonly` is above everything and `bottom` below everything. The placeholder of static calls lies
right above `bottom`, below the four qualifiers in the middle, which are pairwise unrelated. Any
two qualifiers have a least upper bound (`join`) and a greatest lower bound (`meet`).
-/

namespace Mutability.Qualifier

/-- Whether a reference qualified `a` may be used where `b` is asked for. -/
def le (a b : Qualifier) : Bool :=
  a == b || b == readonly || a == bottom || (a == substitutable && b != bottom)

instance : LE Qualifier := ⟨fun a b => a.le b = true⟩

instance decidableLE (a b : Qualifier) : Decidable (a ≤ b) :=
  inferInstanceAs (Decidable (a.le b = true))

/-- The steps of the order: `Covers b a` when `b` lies directly above `a`. -/
inductive Covers : Qualifier → Qualifier → Prop
  | mutable_readonly : Covers readonly mutable
  | immutable_readonly : Covers readonly immutable
  | receiverDependant_readonly : Covers readonly receiverDependant
  | polyMutable_readonly : Covers readonly polyMutable
  | substitutable_mutable : Covers mutable substitutable
  | substitutable_immutable : Covers immutable substitutable
  | substitutable_receiverDependant : Covers receiverDependant substitutable
  | substitutable_polyMutable : Covers polyMutable substitutable
  | bottom_substitutable : Covers substitutable bottom

/-- The least qualifier above both. -/
def join (a b : Qualifier) : Qualifier :=
  if a ≤ b then b else if b ≤ a then a else readonly

/-- The greatest qualifier below both. -/
def meet (a b : Qualifier) : Qualifier :=
  if a ≤ b then a else if b ≤ a then b else substitutable

/-- The join of a list, `bottom` for the empty one. -/
def joinAll (qs : List Qualifier) : Qualifier :=
  qs.foldl join bottom

/-- The meet of a list, `readonly` for the empty one. -/
def meetAll (qs : List Qualifier) : Qualifier :=
  qs.foldl meet readonly

/-! ## The order -/

theorem le_refl (a : Qualifier) : a ≤ a := by
  cases a <;> decide

theorem le_trans {a b c : Qualifier} : a ≤ b → b ≤ c → a ≤ c := by
  cases a <;> cases b <;> cases c <;> decide

theorem le_antisymm {a b : Qualifier} : a ≤ b → b ≤ a → a = b := by
  cases a <;> cases b <;> decide

theorem le_readonly (a : Qualifier) : a ≤ readonly := by
  cases a <;> decide

theorem bottom_le (a : Qualifier) : bottom ≤ a := by
  cases a <;> decide

/-! ## Bounds of two qualifiers -/

theorem le_join_left (a b : Qualifier) : a ≤ join a b := by
  cases a <;> cases b <;> decide

theorem le_join_right (a b : Qualifier) : b ≤ join a b := by
  cases a <;> cases b <;> decide

theorem join_le {a b c : Qualifier} : a ≤ c → b ≤ c → join a b ≤ c := by
  cases a <;> cases b <;> cases c <;> decide

theorem meet_le_left (a b : Qualifier) : meet a b ≤ a := by
  cases a <;> cases b <;> decide

theorem meet_le_right (a b : Qualifier) : meet a b ≤ b := by
  cases a <;> cases b <;> decide

theorem le_meet {a b c : Qualifier} : c ≤ a → c ≤ b → c ≤ meet a b := by
  cases a <;> cases b <;> cases c <;> decide

end Mutability.Qualifier
