/-!
# Maps that keep insertion order

An `OrderedMap` is a list of entries whose keys differ. Inserting a new key puts its entry at the
end; inserting a key that is there replaces the value and keeps the place. Tables of classes, of
fields and of aliases are such maps, since reports list their entries in order.
-/

namespace Mutability

/-- A finite map with its entries in the order in which their keys first came. -/
structure OrderedMap (κ α : Type) where
  entries : List (κ × α)
  keys_nodup : (entries.map Prod.fst).Nodup
deriving DecidableEq, Repr

namespace OrderedMap

variable {κ α : Type}

/-- The map without entries. -/
def empty : OrderedMap κ α := ⟨[], List.nodup_nil⟩

instance : EmptyCollection (OrderedMap κ α) := ⟨empty⟩

instance : Inhabited (OrderedMap κ α) := ⟨∅⟩

/-- The keys in order. -/
def keys (m : OrderedMap κ α) : List κ :=
  m.entries.map Prod.fst

/-- The values in the order of their keys. -/
def values (m : OrderedMap κ α) : List α :=
  m.entries.map Prod.snd

variable [DecidableEq κ]

/-- The entries with the value of `k` set to `v`. -/
def put (k : κ) (v : α) : List (κ × α) → List (κ × α)
  | [] => [(k, v)]
  | e :: rest => if e.1 = k then (k, v) :: rest else e :: put k v rest

theorem mem_keys_put (k : κ) (v : α) (es : List (κ × α)) (x : κ) :
    x ∈ (put k v es).map Prod.fst ↔ x = k ∨ x ∈ es.map Prod.fst := by
  induction es with
  | nil => simp [put]
  | cons e rest ih =>
    by_cases h : e.1 = k
    · simp [put, h]
    · rw [put, if_neg h, List.map_cons, List.mem_cons, ih, List.map_cons, List.mem_cons]
      exact or_left_comm

theorem keys_nodup_put (k : κ) (v : α) {es : List (κ × α)} (h : (es.map Prod.fst).Nodup) :
    ((put k v es).map Prod.fst).Nodup := by
  induction es with
  | nil => simp [put]
  | cons e rest ih =>
    rw [List.map_cons, List.nodup_cons] at h
    by_cases hk : e.1 = k
    · subst hk
      simpa [put] using h
    · rw [put, if_neg hk, List.map_cons, List.nodup_cons, mem_keys_put]
      exact ⟨fun hm => hm.elim hk h.1, ih h.2⟩

/-- The map with the value of `k` set to `v`: a new key goes to the end, a known one keeps its
place. -/
def insert (m : OrderedMap κ α) (k : κ) (v : α) : OrderedMap κ α :=
  ⟨put k v m.entries, keys_nodup_put k v m.keys_nodup⟩

/-- The value of `k`, if there is one. -/
def get? (m : OrderedMap κ α) (k : κ) : Option α :=
  m.entries.lookup k

/-- One more occurrence of `k`. -/
def bump (m : OrderedMap κ Nat) (k : κ) : OrderedMap κ Nat :=
  m.insert k ((m.get? k).getD 0 + 1)

/-- Inserts the pairs of a list from left to right. -/
def ofList (es : List (κ × α)) : OrderedMap κ α :=
  es.foldl (fun m e => m.insert e.1 e.2) ∅

/-! ## Looking up -/

theorem lookup_cons_eq_ite (e : κ × α) (es : List (κ × α)) (x : κ) :
    (e :: es).lookup x = if x = e.1 then some e.2 else es.lookup x := by
  rw [List.lookup_cons]
  by_cases h : x = e.1
  · rw [if_pos h, beq_iff_eq.2 h]
  · rw [if_neg h, beq_false_of_ne h]

theorem get?_of_mem_entries {m : OrderedMap κ α} {e : κ × α} (h : e ∈ m.entries) :
    m.get? e.1 = some e.2 := by
  obtain ⟨es, hnodup⟩ := m
  show es.lookup e.1 = some e.2
  replace h : e ∈ es := h
  induction es with
  | nil => cases h
  | cons e' rest ih =>
    rw [List.map_cons, List.nodup_cons] at hnodup
    rw [lookup_cons_eq_ite]
    rcases List.mem_cons.1 h with rfl | h
    · exact if_pos rfl
    · have hne : e.1 ≠ e'.1 := fun he => hnodup.1 (he ▸ List.mem_map_of_mem h)
      rw [if_neg hne]
      exact ih hnodup.2 h

theorem get?_eq_none_iff {m : OrderedMap κ α} {k : κ} : m.get? k = none ↔ k ∉ m.keys := by
  rw [get?, List.lookup_eq_none_iff, keys, List.mem_map]
  constructor
  · rintro h ⟨e, he, rfl⟩
    exact bne_iff_ne.1 (h e he) rfl
  · intro h e he
    exact bne_iff_ne.2 fun hk => h ⟨e, he, hk.symm⟩

/-! ## Looking up after an insertion -/

theorem lookup_put (k : κ) (v : α) (es : List (κ × α)) (x : κ) :
    (put k v es).lookup x = if x = k then some v else es.lookup x := by
  induction es with
  | nil => rw [put, lookup_cons_eq_ite]
  | cons e rest ih =>
    by_cases he : e.1 = k
    · rw [put, if_pos he, lookup_cons_eq_ite, lookup_cons_eq_ite, he]
      by_cases hx : x = k
      · rw [if_pos hx, if_pos hx]
      · rw [if_neg hx, if_neg hx, if_neg hx]
    · rw [put, if_neg he, lookup_cons_eq_ite, lookup_cons_eq_ite, ih]
      by_cases hx : x = k
      · have hne : x ≠ e.1 := fun h => he (h.symm.trans hx)
        rw [if_neg hne, if_pos hx, if_pos hx]
      · rw [if_neg hx, if_neg hx]

/-- The inserted key has the inserted value; every other key has the value it had. -/
theorem get?_insert (m : OrderedMap κ α) (k : κ) (v : α) (x : κ) :
    (m.insert k v).get? x = if x = k then some v else m.get? x :=
  lookup_put k v m.entries x

end OrderedMap

end Mutability
