import Mutability.Checker.Table
import Mutability.Proofs.ReportAppend

/-!
# Computations that only add to the report

A computation of the checker threads the report through its steps, but no step ever reads it. Such
a computation is `Additive`: run from any report it does what it does from the empty one, and puts
what it adds behind what was there. All that is worth knowing about it is then its run from the
empty report: it ends with a value and adds a report (`Yields`), or it ends in a fault (`Fails`).
Both are read off a sequence of steps one step at a time (`yields_bind`, `fails_bind`).

`Within P` leaves out what is added and keeps only that every added diagnostic satisfies `P`. With
a `P` that nothing satisfies it says that the computation ends with a value and reports nothing.
-/

namespace Mutability

namespace Report

/-- The report with these diagnostics about one member, and nothing else. -/
def ofDiagnostics (l : Location) (ds : List Diagnostic) : Report :=
  ⟨ds.map (⟨l, ·⟩), [], [], ∅⟩

/-- The report with one declared position, and nothing else. -/
def ofPosition (p : Position) : Report :=
  ⟨[], [p], [], ∅⟩

end Report

namespace Checker

variable {α β : Type}

/-- The computation adds to the report and does not depend on it. -/
class Additive (m : Check α) : Prop where
  run_eq : ∀ r : Report, m.run r = (m.run ∅).map fun x => (x.1, r ++ x.2)

/-- The computation ends with `a` and adds `d` to the report. -/
def Yields (m : Check α) (a : α) (d : Report) : Prop :=
  m.run ∅ = .ok (a, d)

/-- The computation ends in a fault. -/
def Fails (m : Check α) (f : Fault) : Prop :=
  m.run ∅ = .error f

section

variable {m : Check α} {k : α → Check β}

/-! ## Runs from any report -/

theorem run_bind (m : Check α) (k : α → Check β) (r : Report) :
    (m >>= k).run r = (m.run r).bind fun x => (k x.1).run x.2 := by
  show StateT.bind m k r = _
  unfold StateT.bind
  cases h : m r with
  | error f => simp [StateT.run, h, bind, Except.bind]
  | ok x => simp [StateT.run, h, bind, Except.bind]

theorem Yields.run_eq [Additive m] {a : α} {d : Report} (h : Yields m a d) (r : Report) :
    m.run r = .ok (a, r ++ d) := by
  have h' : m.run ∅ = .ok (a, d) := h
  rw [Additive.run_eq r, h']
  rfl

theorem Fails.run_eq [Additive m] {f : Fault} (h : Fails m f) (r : Report) :
    m.run r = .error f := by
  have h' : m.run ∅ = .error f := h
  rw [Additive.run_eq r, h']
  rfl

theorem Yields.unique {a b : α} {d e : Report} (h : Yields m a d) (h' : Yields m b e) :
    a = b ∧ d = e := by
  have hab : Except.ok (ε := Fault) (a, d) = .ok (b, e) := h.symm.trans h'
  simpa using hab

/-- The value of a computation can be read off its run. -/
theorem exists_yields_iff {a : α} :
    (∃ d, Yields m a d) ↔ (m.run ∅).map Prod.fst = .ok a := by
  unfold Yields
  cases m.run ∅ with
  | error f => simp [Except.map]
  | ok x => simp [Except.map, Prod.ext_iff]

/-! ## Sequences of steps -/

instance additive_pure (a : α) : Additive (pure a : Check α) where
  run_eq r := by
    show Except.ok (a, r) = .ok (a, r ++ (∅ : Report))
    rw [Report.append_empty]

instance additive_lift (x : Except Fault α) : Additive (liftM x : Check α) where
  run_eq r := by
    cases x with
    | error f => rfl
    | ok a =>
      show Except.ok (a, r) = .ok (a, r ++ (∅ : Report))
      rw [Report.append_empty]

instance additive_bind [Additive m] [∀ a, Additive (k a)] : Additive (m >>= k) where
  run_eq r := by
    rw [run_bind, run_bind, Additive.run_eq (m := m) r]
    cases m.run ∅ with
    | error f => rfl
    | ok x =>
      show (k x.1).run (r ++ x.2) = ((k x.1).run x.2).map fun y => (y.1, r ++ y.2)
      rw [Additive.run_eq (m := k x.1) (r ++ x.2), Additive.run_eq (m := k x.1) x.2]
      cases (k x.1).run ∅ with
      | error f => rfl
      | ok y =>
        show Except.ok (y.1, r ++ x.2 ++ y.2) = .ok (y.1, r ++ (x.2 ++ y.2))
        rw [Report.append_assoc]

instance additive_ite {c : Prop} [Decidable c] {n : Check α} [Additive m] [Additive n] :
    Additive (if c then m else n) := by
  split <;> assumption

theorem yields_pure {a b : α} {d : Report} : Yields (pure a : Check α) b d ↔ b = a ∧ d = ∅ := by
  show Except.ok (a, ∅) = .ok (b, d) ↔ _
  simp [eq_comm]

theorem yields_lift {x : Except Fault α} {a : α} {d : Report} :
    Yields (liftM x : Check α) a d ↔ x = .ok a ∧ d = ∅ := by
  cases x with
  | error f =>
    constructor
    · intro h; cases h
    · rintro ⟨h, -⟩; cases h
  | ok b =>
    show Except.ok (b, ∅) = .ok (a, d) ↔ _
    simp [eq_comm]

/-- Two steps end with a value if both do, and add what the first adds and then what the second
adds. -/
theorem yields_bind [∀ a, Additive (k a)] {b : β} {d : Report} :
    Yields (m >>= k) b d ↔
      ∃ a d₁ d₂, Yields m a d₁ ∧ Yields (k a) b d₂ ∧ d = d₁ ++ d₂ := by
  unfold Yields
  rw [run_bind]
  cases hm : m.run ∅ with
  | error f =>
    constructor
    · intro h; cases h
    · rintro ⟨a, d₁, d₂, h, -⟩; cases h
  | ok x =>
    show (k x.1).run x.2 = _ ↔ _
    constructor
    · intro h
      rw [Additive.run_eq (m := k x.1) x.2] at h
      cases hk : (k x.1).run ∅ with
      | error f => rw [hk] at h; cases h
      | ok y =>
        rw [hk] at h
        obtain ⟨rfl, rfl⟩ : y.1 = b ∧ x.2 ++ y.2 = d := by simpa [Except.map] using h
        exact ⟨x.1, x.2, y.2, rfl, hk, rfl⟩
    · rintro ⟨a, d₁, d₂, h, hk, rfl⟩
      obtain ⟨rfl, rfl⟩ : x.1 = a ∧ x.2 = d₁ := by simpa [Prod.ext_iff] using h
      exact Yields.run_eq hk x.2

/-- Two steps fail if the first does, or if the second does after the first. -/
theorem fails_bind [∀ a, Additive (k a)] {f : Fault} :
    Fails (m >>= k) f ↔ Fails m f ∨ ∃ a d, Yields m a d ∧ Fails (k a) f := by
  unfold Fails Yields
  rw [run_bind]
  cases hm : m.run ∅ with
  | error g =>
    constructor
    · intro h; cases h; exact Or.inl rfl
    · rintro (h | ⟨a, d, h, -⟩)
      · cases h; rfl
      · cases h
  | ok x =>
    show (k x.1).run x.2 = _ ↔ _
    constructor
    · intro h
      refine Or.inr ⟨x.1, x.2, rfl, ?_⟩
      rw [Additive.run_eq (m := k x.1) x.2] at h
      cases hk : (k x.1).run ∅ with
      | error g => rw [hk] at h; exact h
      | ok y => rw [hk] at h; cases h
    · rintro (h | ⟨a, d, h, hk⟩)
      · cases h
      · obtain ⟨rfl, rfl⟩ : x.1 = a ∧ x.2 = d := by simpa [Prod.ext_iff] using h
        exact Fails.run_eq hk x.2

end

/-! ## Steps that add something -/

instance additive_emitAll (l : Location) (ds : List Diagnostic) : Additive (emitAll l ds) where
  run_eq r := by
    show Except.ok
        ((), Report.mk (r.diagnostics ++ ds.map _) r.positions r.constructors r.objects) =
      .ok ((), r ++ (⟨[] ++ ds.map _, [], [], ∅⟩ : Report))
    rw [List.nil_append]
    show _ = Except.ok ((), Report.mk _ (r.positions ++ []) (r.constructors ++ [])
      (r.objects.merge ∅))
    rw [List.append_nil, List.append_nil, OrderedMap.merge_empty]

instance additive_recordPosition (p : Position) : Additive (recordPosition p) where
  run_eq r := by
    show Except.ok ((), (⟨r.diagnostics, r.positions ++ [p], r.constructors, r.objects⟩ : Report)) =
      .ok ((), Report.mk (r.diagnostics ++ []) (r.positions ++ [p]) (r.constructors ++ [])
        (r.objects.merge ∅))
    rw [List.append_nil, List.append_nil, OrderedMap.merge_empty]

theorem yields_emitAll {l : Location} {ds : List Diagnostic} {u : Unit} {d : Report} :
    Yields (emitAll l ds) u d ↔ d = .ofDiagnostics l ds := by
  show Except.ok ((), Report.ofDiagnostics l ds) = .ok (u, d) ↔ _
  simp [eq_comm]

theorem yields_recordPosition {p : Position} {u : Unit} {d : Report} :
    Yields (recordPosition p) u d ↔ d = .ofPosition p := by
  show Except.ok ((), Report.ofPosition p) = .ok (u, d) ↔ _
  simp [eq_comm]

/-! ## Diagnostics of some kind only -/

section

variable {P : Diagnostic → Prop} {m : Check α} {k : α → Check β}

/-- The computation ends with `a`, and every diagnostic that it adds satisfies `P`. -/
def Within (P : Diagnostic → Prop) (m : Check α) (a : α) : Prop :=
  ∃ d, Yields m a d ∧ ∀ x ∈ d.diagnostics, P x.diagnostic

theorem Within.unique {a b : α} (h : Within P m a) (h' : Within P m b) : a = b := by
  obtain ⟨d, hd, -⟩ := h
  obtain ⟨e, he, -⟩ := h'
  exact (hd.unique he).1

theorem Yields.within {a : α} {d : Report} (h : Yields m a d) : Within (fun _ => True) m a :=
  ⟨d, h, fun _ _ => trivial⟩

theorem within_pure {a b : α} : Within P (pure a : Check α) b ↔ b = a := by
  constructor
  · rintro ⟨d, h, -⟩
    exact (yields_pure.1 h).1
  · rintro rfl
    exact ⟨∅, yields_pure.2 ⟨rfl, rfl⟩, fun x hx => by cases hx⟩

theorem within_lift {x : Except Fault α} {a : α} :
    Within P (liftM x : Check α) a ↔ x = .ok a := by
  constructor
  · rintro ⟨d, h, -⟩
    exact (yields_lift.1 h).1
  · intro h
    exact ⟨∅, yields_lift.2 ⟨h, rfl⟩, fun x hx => by cases hx⟩

theorem within_bind [∀ a, Additive (k a)] {b : β} :
    Within P (m >>= k) b ↔ ∃ a, Within P m a ∧ Within P (k a) b := by
  constructor
  · rintro ⟨d, h, hP⟩
    obtain ⟨a, d₁, d₂, hm, hk, rfl⟩ := yields_bind.1 h
    rw [Report.append_diagnostics] at hP
    exact ⟨a, ⟨d₁, hm, fun x hx => hP x (List.mem_append_left _ hx)⟩,
      ⟨d₂, hk, fun x hx => hP x (List.mem_append_right _ hx)⟩⟩
  · rintro ⟨a, ⟨d₁, hm, h₁⟩, ⟨d₂, hk, h₂⟩⟩
    refine ⟨d₁ ++ d₂, yields_bind.2 ⟨a, d₁, d₂, hm, hk, rfl⟩, fun x hx => ?_⟩
    exact (List.mem_append.1 hx).elim (h₁ x) (h₂ x)

theorem within_emitAll {l : Location} {ds : List Diagnostic} {u : Unit} :
    Within P (emitAll l ds) u ↔ ∀ d ∈ ds, P d := by
  constructor
  · rintro ⟨r, h, hP⟩ d hd
    obtain rfl := yields_emitAll.1 h
    exact hP ⟨l, d⟩ (List.mem_map.2 ⟨d, hd, rfl⟩)
  · intro h
    refine ⟨_, yields_emitAll.2 rfl, fun x hx => ?_⟩
    obtain ⟨d, hd, rfl⟩ := List.mem_map.1 hx
    exact h d hd

theorem within_recordPosition {p : Position} {u : Unit} : Within P (recordPosition p) u := by
  exact ⟨_, yields_recordPosition.2 rfl, fun x hx => by cases hx⟩

end

end Checker

end Mutability
