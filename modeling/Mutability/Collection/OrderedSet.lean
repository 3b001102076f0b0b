/-!
# Sets that keep insertion order

An `OrderedSet` is a list without repetitions. Inserting a member changes nothing.
-/

namespace Mutability

/-- A finite set with its members in the order in which they first came. -/
structure OrderedSet (α : Type) where
  toList : List α
  nodup : toList.Nodup
deriving DecidableEq, Repr

namespace OrderedSet

variable {α : Type}

theorem nodup_append_of_not_mem {l : List α} {a : α} (h : l.Nodup) (ha : a ∉ l) :
    (l ++ [a]).Nodup := by
  rw [List.nodup_append]
  refine ⟨h, List.nodup_cons.2 ⟨List.not_mem_nil, List.nodup_nil⟩, ?_⟩
  intro x hx y hy hxy
  rw [List.mem_singleton] at hy
  exact ha (hy ▸ hxy ▸ hx)

/-- The set without members. -/
def empty : OrderedSet α := ⟨[], List.nodup_nil⟩

instance : EmptyCollection (OrderedSet α) := ⟨empty⟩

instance : Inhabited (OrderedSet α) := ⟨∅⟩

/-- The number of members. -/
def size (s : OrderedSet α) : Nat :=
  s.toList.length

variable [DecidableEq α]

/-- Whether `a` is a member. -/
def contains (s : OrderedSet α) (a : α) : Bool :=
  decide (a ∈ s.toList)

/-- The set with `a` as its last member, or the set itself if `a` is a member. -/
def insert (s : OrderedSet α) (a : α) : OrderedSet α :=
  if h : a ∈ s.toList then s else ⟨s.toList ++ [a], nodup_append_of_not_mem s.nodup h⟩

/-- Inserts the members of a list from left to right. -/
def ofList (as : List α) : OrderedSet α :=
  as.foldl insert ∅

/-- The members after an insertion. -/
theorem mem_toList_insert (s : OrderedSet α) (a x : α) :
    x ∈ (s.insert a).toList ↔ x = a ∨ x ∈ s.toList := by
  unfold insert
  split
  · next h => exact ⟨Or.inr, fun hx => hx.elim (fun hxa => hxa ▸ h) id⟩
  · rw [List.mem_append, List.mem_singleton]
    exact or_comm

end OrderedSet

end Mutability
