import Mutability.Report

/-!
# Reports one after the other

A check adds to its report and never takes anything back. `r ++ d` is the report that says what `r`
says and then what `d` says: the lists are joined end to end, and the states of new objects in `d`
are set on top of those in `r` (`OrderedMap.merge`). Reports form a monoid in this way
(`Report.append_assoc`), so that what a sequence of steps adds is what each of them adds, in order.
-/

namespace Mutability

namespace OrderedMap

variable {κ α : Type}

theorem ext_entries {m n : OrderedMap κ α} (h : m.entries = n.entries) : m = n := by
  obtain ⟨es, hes⟩ := m
  obtain ⟨fs, hfs⟩ := n
  have hef : es = fs := h
  subst hef
  rfl

variable [DecidableEq κ]

/-! ## Two insertions -/

theorem put_of_not_mem (k : κ) (v : α) {es : List (κ × α)} (h : k ∉ es.map Prod.fst) :
    put k v es = es ++ [(k, v)] := by
  induction es with
  | nil => rfl
  | cons e rest ih =>
    rw [List.map_cons, List.mem_cons, not_or] at h
    rw [put, if_neg (Ne.symm h.1), ih h.2, List.cons_append]

theorem put_put (k : κ) (v w : α) (es : List (κ × α)) : put k w (put k v es) = put k w es := by
  induction es with
  | nil => simp [put]
  | cons e rest ih =>
    by_cases h : e.1 = k
    · simp [put, h]
    · rw [put, if_neg h, put, if_neg h, put, if_neg h, ih]

/-- A key that is there can be set before or after another one. -/
theorem put_comm {k l : κ} (hne : l ≠ k) (v w : α) {es : List (κ × α)} (h : k ∈ es.map Prod.fst) :
    put k v (put l w es) = put l w (put k v es) := by
  induction es with
  | nil => cases h
  | cons e rest ih =>
    by_cases hk : e.1 = k
    · have hl : e.1 ≠ l := fun hel => hne (hel.symm.trans hk)
      rw [put, if_neg hl, put, if_pos hk, put, if_pos hk, put, if_neg (Ne.symm hne)]
    · have hr : k ∈ rest.map Prod.fst := by
        rw [List.map_cons, List.mem_cons] at h
        exact h.resolve_left (Ne.symm hk)
      by_cases hl : e.1 = l
      · rw [put, if_pos hl, put, if_neg hne, put, if_neg hk, put, if_pos hl]
      · rw [put, if_neg hl, put, if_neg hk, ih hr, put, if_neg hk, put, if_neg hl]

/-! ## One map on top of another -/

/-- The entries of `ns` set one after the other. -/
def putAll (es ns : List (κ × α)) : List (κ × α) :=
  ns.foldl (fun es e => put e.1 e.2 es) es

theorem put_putAll {k : κ} (v : α) {es ns : List (κ × α)} (hes : k ∈ es.map Prod.fst)
    (hns : k ∉ ns.map Prod.fst) : put k v (putAll es ns) = putAll (put k v es) ns := by
  induction ns generalizing es with
  | nil => rfl
  | cons e rest ih =>
    rw [List.map_cons, List.mem_cons, not_or] at hns
    have hes' : k ∈ (put e.1 e.2 es).map Prod.fst := (mem_keys_put e.1 e.2 es k).2 (Or.inr hes)
    calc put k v (putAll es (e :: rest))
        = put k v (putAll (put e.1 e.2 es) rest) := rfl
      _ = putAll (put k v (put e.1 e.2 es)) rest := ih hes' hns.2
      _ = putAll (put e.1 e.2 (put k v es)) rest := by rw [put_comm (Ne.symm hns.1) v e.2 hes]

theorem putAll_put (k : κ) (v : α) (es : List (κ × α)) {ns : List (κ × α)}
    (h : (ns.map Prod.fst).Nodup) : putAll es (put k v ns) = put k v (putAll es ns) := by
  induction ns generalizing es with
  | nil => rfl
  | cons e rest ih =>
    rw [List.map_cons, List.nodup_cons] at h
    by_cases hk : e.1 = k
    · subst hk
      have hmem : e.1 ∈ (put e.1 e.2 es).map Prod.fst :=
        (mem_keys_put e.1 e.2 es e.1).2 (Or.inl rfl)
      rw [put, if_pos rfl]
      calc putAll es ((e.1, v) :: rest)
          = putAll (put e.1 v es) rest := rfl
        _ = putAll (put e.1 v (put e.1 e.2 es)) rest := by rw [put_put]
        _ = put e.1 v (putAll (put e.1 e.2 es) rest) := (put_putAll v hmem h.1).symm
    · rw [put, if_neg hk]
      exact ih (put e.1 e.2 es) h.2

/-- The map `m` with every entry of `n` set on top of it. -/
def merge (m n : OrderedMap κ α) : OrderedMap κ α :=
  n.entries.foldl (fun m e => m.insert e.1 e.2) m

theorem foldl_insert_entries (es : List (κ × α)) (m : OrderedMap κ α) :
    (es.foldl (fun m e => m.insert e.1 e.2) m).entries = putAll m.entries es := by
  induction es generalizing m with
  | nil => rfl
  | cons e rest ih => exact ih (m.insert e.1 e.2)

theorem merge_entries (m n : OrderedMap κ α) : (m.merge n).entries = putAll m.entries n.entries :=
  foldl_insert_entries n.entries m

theorem merge_empty (m : OrderedMap κ α) : m.merge ∅ = m := rfl

theorem merge_insert (m n : OrderedMap κ α) (k : κ) (v : α) :
    m.merge (n.insert k v) = (m.merge n).insert k v := by
  apply ext_entries
  rw [merge_entries]
  show putAll m.entries (put k v n.entries) = put k v (m.merge n).entries
  rw [putAll_put k v m.entries n.keys_nodup, merge_entries]

theorem putAll_nil_append (es ns : List (κ × α)) (h : ((es ++ ns).map Prod.fst).Nodup) :
    putAll es ns = es ++ ns := by
  induction ns generalizing es with
  | nil => rw [List.append_nil]; rfl
  | cons e rest ih =>
    have hassoc : es ++ e :: rest = es ++ [e] ++ rest := by
      rw [List.append_assoc, List.singleton_append]
    have hmem : e.1 ∉ es.map Prod.fst := by
      intro hm
      rw [List.map_append, List.map_cons, List.nodup_append] at h
      exact h.2.2 e.1 hm e.1 List.mem_cons_self rfl
    show putAll (put e.1 e.2 es) rest = es ++ e :: rest
    rw [put_of_not_mem e.1 e.2 hmem, hassoc]
    exact ih (es ++ [e]) (by rw [← hassoc]; exact h)

theorem empty_merge (m : OrderedMap κ α) : (∅ : OrderedMap κ α).merge m = m := by
  apply ext_entries
  rw [merge_entries]
  exact putAll_nil_append [] m.entries m.keys_nodup

theorem foldl_insert_merge (es : List (κ × α)) (a b : OrderedMap κ α) :
    es.foldl (fun m e => m.insert e.1 e.2) (a.merge b) =
      a.merge (es.foldl (fun m e => m.insert e.1 e.2) b) := by
  induction es generalizing b with
  | nil => rfl
  | cons e rest ih =>
    rw [List.foldl_cons, List.foldl_cons, ← merge_insert]
    exact ih (b.insert e.1 e.2)

theorem merge_assoc (a b c : OrderedMap κ α) : (a.merge b).merge c = a.merge (b.merge c) :=
  foldl_insert_merge c.entries a b

theorem lookup_putAll (es ns : List (κ × α)) (h : (ns.map Prod.fst).Nodup) (x : κ) :
    (putAll es ns).lookup x = (ns.lookup x).or (es.lookup x) := by
  induction ns generalizing es with
  | nil => rfl
  | cons e rest ih =>
    rw [List.map_cons, List.nodup_cons] at h
    show (putAll (put e.1 e.2 es) rest).lookup x = _
    rw [ih (put e.1 e.2 es) h.2, lookup_put, lookup_cons_eq_ite]
    by_cases hx : x = e.1
    · have hnone : rest.lookup x = none := by
        rw [List.lookup_eq_none_iff]
        intro y hy
        have hne : x ≠ y.1 := fun hxy => h.1 (hx ▸ hxy ▸ List.mem_map.2 ⟨y, hy, rfl⟩)
        simpa using hne
      rw [hnone, if_pos hx, if_pos hx]
      rfl
    · rw [if_neg hx, if_neg hx]

/-- The upper map decides; where it says nothing, the lower one does. -/
theorem get?_merge (m n : OrderedMap κ α) (x : κ) :
    (m.merge n).get? x = (n.get? x).or (m.get? x) := by
  unfold get?
  rw [merge_entries, lookup_putAll m.entries n.entries n.keys_nodup x]

end OrderedMap

namespace Report

/-- What `r` says and then what `d` says. -/
def append (r d : Report) : Report where
  diagnostics := r.diagnostics ++ d.diagnostics
  positions := r.positions ++ d.positions
  constructors := r.constructors ++ d.constructors
  objects := r.objects.merge d.objects

instance : Append Report := ⟨append⟩

@[simp] theorem append_diagnostics (r d : Report) :
    (r ++ d).diagnostics = r.diagnostics ++ d.diagnostics := rfl

@[simp] theorem append_positions (r d : Report) :
    (r ++ d).positions = r.positions ++ d.positions := rfl

@[simp] theorem append_constructors (r d : Report) :
    (r ++ d).constructors = r.constructors ++ d.constructors := rfl

@[simp] theorem append_objects (r d : Report) :
    (r ++ d).objects = r.objects.merge d.objects := rfl

theorem append_empty (r : Report) : r ++ (∅ : Report) = r := by
  show Report.mk (r.diagnostics ++ []) (r.positions ++ []) (r.constructors ++ [])
    (r.objects.merge ∅) = r
  rw [List.append_nil, List.append_nil, List.append_nil, OrderedMap.merge_empty]

theorem empty_append (r : Report) : (∅ : Report) ++ r = r := by
  show Report.mk r.diagnostics r.positions r.constructors ((∅ : OrderedMap _ _).merge r.objects) = r
  rw [OrderedMap.empty_merge]

theorem append_assoc (a b c : Report) : a ++ b ++ c = a ++ (b ++ c) := by
  show Report.mk (a.diagnostics ++ b.diagnostics ++ c.diagnostics)
      (a.positions ++ b.positions ++ c.positions)
      (a.constructors ++ b.constructors ++ c.constructors)
      ((a.objects.merge b.objects).merge c.objects) =
    Report.mk (a.diagnostics ++ (b.diagnostics ++ c.diagnostics))
      (a.positions ++ (b.positions ++ c.positions))
      (a.constructors ++ (b.constructors ++ c.constructors))
      (a.objects.merge (b.objects.merge c.objects))
  rw [List.append_assoc, List.append_assoc, List.append_assoc, OrderedMap.merge_assoc]

end Report

end Mutability
