import Mathlib.Algebra.GroupWithZero.Nat
import Mathlib.Data.Finset.Card
import Mutability.Proofs.ConstructorSummaries
import Mutability.Proofs.PositionLedger

/-!
# Metrics add up

The metrics of a report are counts, kept up to date one position and one diagnostic at a time. None
of them loses an entry of the report or counts it twice: the counts by origin and the counts by
qualifier both sum to the number of positions with a qualifier (`Metrics.CountsPositions`), the
counts by key to the number of diagnostics (`Metrics.DiagnosticSummary.Counts`).

Both tables of counts are maps in which one key after the other is bumped (`OrderedMap.bump`). Their
entries after a run are given by the keys and the numbers of their occurrences, so the order of the
report only shows where keys are listed as they are first seen.
-/

namespace Mutability

/-! ## Maps of counts -/

namespace OrderedMap

variable {κ : Type} [DecidableEq κ]

theorem getD_get?_bump (m : OrderedMap κ Nat) (k x : κ) :
    ((m.bump k).get? x).getD 0 = (m.get? x).getD 0 + if k = x then 1 else 0 := by
  rw [bump, get?_insert]
  by_cases h : x = k
  · subst h
    simp
  · simp [h, Ne.symm h]

theorem getD_get?_foldl_bump (ks : List κ) (m : OrderedMap κ Nat) (x : κ) :
    ((ks.foldl bump m).get? x).getD 0 = (m.get? x).getD 0 + ks.count x := by
  induction ks generalizing m with
  | nil => rfl
  | cons k rest ih =>
    rw [List.foldl_cons, ih, getD_get?_bump, List.count_cons, Nat.add_assoc,
      Nat.add_comm (rest.count x)]
    simp only [beq_iff_eq]

theorem sum_put (k : κ) (es : List (κ × Nat)) :
    ((put k ((es.lookup k).getD 0 + 1) es).map Prod.snd).sum = (es.map Prod.snd).sum + 1 := by
  induction es with
  | nil => rfl
  | cons e rest ih =>
    rw [lookup_cons_eq_ite, put]
    by_cases h : e.1 = k
    · rw [if_pos h, if_pos h.symm, List.map_cons, List.map_cons, List.sum_cons, List.sum_cons]
      exact Nat.add_right_comm e.2 1 _
    · rw [if_neg h, if_neg (Ne.symm h), List.map_cons, List.map_cons, List.sum_cons,
        List.sum_cons, ih, Nat.add_assoc]

theorem sum_values_bump (m : OrderedMap κ Nat) (k : κ) :
    (m.bump k).values.sum = m.values.sum + 1 :=
  sum_put k m.entries

theorem sum_values_foldl_bump (ks : List κ) (m : OrderedMap κ Nat) :
    (ks.foldl bump m).values.sum = m.values.sum + ks.length := by
  induction ks generalizing m with
  | nil => rfl
  | cons k rest ih =>
    rw [List.foldl_cons, ih, sum_values_bump, List.length_cons, Nat.add_assoc, Nat.add_comm 1]

/-- Keys that are there stay where they are. -/
theorem keys_foldl_bump_of_mem {ks : List κ} {m : OrderedMap κ Nat} (h : ∀ k ∈ ks, k ∈ m.keys) :
    (ks.foldl bump m).keys = m.keys := by
  induction ks generalizing m with
  | nil => rfl
  | cons k rest ih =>
    have hk : (m.bump k).keys = m.keys := by
      rw [bump, keys_insert, if_pos (h k List.mem_cons_self)]
    rw [List.foldl_cons, ih fun x hx => hk ▸ h x (List.mem_cons_of_mem k hx), hk]

/-- New keys stand in the order in which they are first seen. -/
theorem keys_foldl_bump_empty (ks : List κ) :
    (ks.foldl bump (∅ : OrderedMap κ Nat)).keys = ks.eraseDups := by
  induction ks using List.reverseRecOn with
  | nil => rfl
  | append_singleton ks k ih =>
    -- Only the last key can be new to a map that has seen all others, and it goes to the end.
    rw [List.foldl_append, eraseDups_concat]
    show (insert _ k _).keys = _
    rw [keys_insert, ih]
    simp only [List.mem_eraseDups]

theorem entries_eq_map_keys (m : OrderedMap κ Nat) :
    m.entries = m.keys.map fun k => (k, (m.get? k).getD 0) := by
  unfold keys
  rw [List.map_map]
  refine (List.map_id _).symm.trans (List.map_congr_left fun e he => ?_)
  show e = (e.1, (m.get? e.1).getD 0)
  rw [get?_of_mem_entries he]
  rfl

theorem entries_foldl_bump_empty (ks : List κ) :
    (ks.foldl bump (∅ : OrderedMap κ Nat)).entries =
      ks.eraseDups.map fun k => (k, ks.count k) := by
  rw [entries_eq_map_keys, keys_foldl_bump_empty]
  refine List.map_congr_left fun k _ => ?_
  rw [getD_get?_foldl_bump]
  exact congrArg (Prod.mk k) (Nat.zero_add _)

end OrderedMap

/-- Counts of reordered keys are the same, in another order. -/
theorem OrderedMap.entries_foldl_bump_perm {κ : Type} [DecidableEq κ] {ks ls : List κ}
    (h : ks.Perm ls) :
    (ks.foldl bump (∅ : OrderedMap κ Nat)).entries.Perm
      (ls.foldl bump (∅ : OrderedMap κ Nat)).entries := by
  rw [entries_foldl_bump_empty, entries_foldl_bump_empty]
  have hcount : (fun k => (k, ks.count k)) = fun k => (k, ls.count k) := by
    funext k
    rw [h.count_eq k]
  rw [hcount]
  exact (eraseDups_perm h).map _

/-! ## Sets of classes -/

namespace OrderedSet

variable {α : Type} [DecidableEq α]

theorem mem_toList_foldl_insert (as : List α) (s : OrderedSet α) (x : α) :
    x ∈ (as.foldl insert s).toList ↔ x ∈ s.toList ∨ x ∈ as := by
  induction as generalizing s with
  | nil => simp
  | cons a rest ih =>
    rw [List.foldl_cons, ih, mem_toList_insert, List.mem_cons, or_assoc, or_left_comm]

/-- A set has as many members as there are different ones in the list that it is made from. -/
theorem size_ofList (as : List α) : (ofList as).size = as.toFinset.card := by
  have hsame : (ofList as).toList.toFinset = as.toFinset := by
    ext x
    rw [List.mem_toFinset, List.mem_toFinset, ofList, mem_toList_foldl_insert]
    exact or_iff_right List.not_mem_nil
  rw [← hsame, List.toFinset_card_of_nodup (ofList as).nodup]
  rfl

end OrderedSet

/-! ## Positions -/

theorem Report.count_markings {β : Type} [DecidableEq β] (f : Marking → β) (x : β) (r : Report) :
    (r.markings.map f).count x = r.positions.countP fun p => p.marking.map f = some x := by
  unfold markings
  rw [List.map_filterMap, List.count_eq_countP, List.countP_filterMap]
  refine List.countP_congr fun p _ => ?_
  cases p.marking <;> simp

namespace Metrics

/-- The count of all positions is the sum of the counts by origin. -/
def Coverage.Balanced (c : Coverage) : Prop :=
  c.total = c.explicit + c.defaulted + c.propagated + c.refined

theorem Coverage.Balanced.add {c : Coverage} (h : c.Balanced) (o : Origin) :
    (c.add o).Balanced := by
  unfold Balanced at h ⊢
  cases o <;> simp only [Coverage.add] <;> omega

theorem Coverage.Balanced.foldl_add {c : Coverage} (h : c.Balanced) (os : List Origin) :
    (os.foldl Coverage.add c).Balanced := by
  induction os generalizing c with
  | nil => exact h
  | cons o rest ih => exact ih (h.add o)

theorem Coverage.total_foldl_add (os : List Origin) (c : Coverage) :
    (os.foldl Coverage.add c).total = c.total + os.length := by
  rw [Coverage.foldl_add]

theorem Distribution.counts_foldl_add (qs : List Qualifier) (d : Distribution) :
    (qs.foldl Distribution.add d).counts = qs.foldl OrderedMap.bump d.counts := by
  induction qs generalizing d with
  | nil => rfl
  | cons q rest ih => exact ih (d.add q)

theorem Distribution.entries_foldl_add_empty (qs : List Qualifier) :
    (qs.foldl Distribution.add .empty).counts.entries =
      Qualifier.all.map fun q => (q, qs.count q) := by
  have hkeys : (qs.foldl OrderedMap.bump Distribution.empty.counts).keys = Qualifier.all :=
    OrderedMap.keys_foldl_bump_of_mem fun q _ => Qualifier.mem_all q
  rw [counts_foldl_add, OrderedMap.entries_eq_map_keys, hkeys]
  refine List.map_congr_left fun q _ => ?_
  have hzero : (Distribution.empty.counts.get? q).getD 0 = 0 := by
    cases q <;> rfl
  rw [OrderedMap.getD_get?_foldl_bump, hzero, Nat.zero_add]

theorem Distribution.foldl_add_perm {qs qs' : List Qualifier} (h : qs.Perm qs') :
    qs.foldl Distribution.add .empty = qs'.foldl Distribution.add .empty := by
  apply congrArg Distribution.mk
  apply OrderedMap.ext_entries
  rw [entries_foldl_add_empty, entries_foldl_add_empty]
  exact List.map_congr_left fun q _ => congrArg (Prod.mk q) (h.count_eq q)

theorem Coverage.foldl_add_perm {os os' : List Origin} (h : os.Perm os') :
    os.foldl Coverage.add .empty = os'.foldl Coverage.add .empty := by
  simp only [foldl_add, h.count_eq, h.length_eq]

/-- Every position with a qualifier is counted once by its origin and once by its qualifier, and no
other position is counted. -/
structure CountsPositions (m : Metrics) (r : Report) : Prop where
  total_eq_sum : m.coverage.total = m.coverage.explicit + m.coverage.defaulted +
    m.coverage.propagated + m.coverage.refined
  coverage : m.coverage = {
    total := r.positions.countP fun p => p.marking.isSome
    explicit := r.positions.countP fun p => p.marking.map Marking.origin = some .explicit
    defaulted := r.positions.countP fun p => p.marking.map Marking.origin = some .defaulted
    propagated := r.positions.countP fun p => p.marking.map Marking.origin = some .propagated
    refined := r.positions.countP fun p => p.marking.map Marking.origin = some .refined }
  /-- Every qualifier is listed, whether it occurs or not. -/
  distribution : m.distribution.counts.entries =
    Qualifier.all.map fun q => (q, r.positions.countP fun p => p.qualifier? = some q)
  sum_distribution : m.distribution.counts.values.sum = m.coverage.total

theorem countsPositions_ofReport (r : Report) : (ofReport r).CountsPositions r where
  total_eq_sum := by
    have hempty : Coverage.empty.Balanced := rfl
    exact hempty.foldl_add (r.markings.map Marking.origin)
  coverage := by
    show (r.markings.map Marking.origin).foldl Coverage.add .empty = _
    have hlength : r.markings.length = r.positions.countP fun p => p.marking.isSome :=
      List.length_filterMap_eq_countP
    simp only [Coverage.foldl_add, Report.count_markings, List.length_map, hlength,
      Coverage.empty, Nat.zero_add]
  distribution := by
    show ((r.markings.map Marking.qualifier).foldl Distribution.add .empty).counts.entries = _
    rw [Distribution.entries_foldl_add_empty]
    exact List.map_congr_left fun q _ => congrArg (Prod.mk q) (r.count_markings _ q)
  sum_distribution := by
    show ((r.markings.map Marking.qualifier).foldl Distribution.add .empty).counts.values.sum =
      ((r.markings.map Marking.origin).foldl Coverage.add .empty).total
    rw [Distribution.counts_foldl_add, OrderedMap.sum_values_foldl_bump, Coverage.total_foldl_add,
      List.length_map, List.length_map]
    rfl

end Metrics

/-! ## Diagnostics -/

theorem Report.count_keys (r : Report) (k : String) :
    r.keys.count k = r.diagnostics.countP fun d => d.diagnostic.kind.key = k := by
  unfold keys
  rw [List.count_eq_countP, List.countP_map]
  exact List.countP_congr fun d _ => by simp

theorem Diagnostic.Kind.key_eq_typeInvalid {kind : Kind} :
    kind.key = "type.invalid" ↔ kind = .typeInvalid ∨ kind = .invalidCastQualifier := by
  cases kind <;> decide

/-- No other two kinds share a key. -/
theorem Diagnostic.Kind.key_eq_key {kind kind' : Kind} (h : kind.key ≠ "type.invalid") :
    kind'.key = kind.key ↔ kind' = kind := by
  revert h
  cases kind <;> cases kind' <;> decide

namespace Metrics

/-- Every diagnostic is counted once under its key, and every class with a diagnostic once. -/
structure DiagnosticSummary.Counts (s : DiagnosticSummary) (r : Report) : Prop where
  total : s.total = r.diagnostics.length
  sum_byKey : s.byKey.values.sum = s.total
  mem_keys : ∀ k, k ∈ s.byKey.keys ↔ ∃ d ∈ r.diagnostics, d.diagnostic.kind.key = k
  /-- Keys stand in the order in which they are first seen. -/
  keys_firstSeen : s.byKey.keys.Pairwise fun a b => r.keys.idxOf a < r.keys.idxOf b
  count : ∀ e ∈ s.byKey.entries,
    e.2 = r.diagnostics.countP fun d => d.diagnostic.kind.key = e.1
  count_typeInvalid : (s.byKey.get? "type.invalid").getD 0 = r.diagnostics.countP fun d =>
    d.diagnostic.kind = .typeInvalid ∨ d.diagnostic.kind = .invalidCastQualifier
  count_kind : ∀ kind : Diagnostic.Kind, kind ≠ .typeInvalid → kind ≠ .invalidCastQualifier →
    (s.byKey.get? kind.key).getD 0 = r.diagnostics.countP fun d => d.diagnostic.kind = kind
  classes : s.classesWithErrors =
    (r.diagnostics.map fun d => d.location.className).toFinset.card
  classes_eq_zero : s.classesWithErrors = 0 ↔ s.total = 0

section

variable (r : Report)

theorem byKey_eq_foldl_bump :
    (DiagnosticSummary.ofDiagnostics r.diagnostics).byKey = r.keys.foldl OrderedMap.bump ∅ := rfl

theorem keys_byKey :
    (DiagnosticSummary.ofDiagnostics r.diagnostics).byKey.keys = r.keys.eraseDups := by
  rw [byKey_eq_foldl_bump, OrderedMap.keys_foldl_bump_empty]

theorem getD_get?_byKey (k : String) :
    ((DiagnosticSummary.ofDiagnostics r.diagnostics).byKey.get? k).getD 0 =
      r.diagnostics.countP fun d => d.diagnostic.kind.key = k := by
  rw [byKey_eq_foldl_bump, OrderedMap.getD_get?_foldl_bump, r.count_keys]
  exact Nat.zero_add _

theorem classesWithErrors_eq_card :
    (DiagnosticSummary.ofDiagnostics r.diagnostics).classesWithErrors =
      (r.diagnostics.map fun d => d.location.className).toFinset.card :=
  OrderedSet.size_ofList _

theorem counts_ofDiagnostics : (DiagnosticSummary.ofDiagnostics r.diagnostics).Counts r where
  total := rfl
  sum_byKey := by
    have hlength : r.keys.length = r.diagnostics.length := List.length_map _
    rw [byKey_eq_foldl_bump, OrderedMap.sum_values_foldl_bump, hlength]
    exact Nat.zero_add _
  mem_keys k := by
    rw [keys_byKey, List.mem_eraseDups]
    exact List.mem_map
  keys_firstSeen := by
    rw [keys_byKey]
    exact pairwise_idxOf_eraseDups r.keys
  count e he := by
    rw [← getD_get?_byKey, OrderedMap.get?_of_mem_entries he]
    rfl
  count_typeInvalid := by
    rw [getD_get?_byKey]
    refine List.countP_congr fun d _ => ?_
    simp only [decide_eq_true_eq, Diagnostic.Kind.key_eq_typeInvalid]
  count_kind kind h₁ h₂ := by
    have hkey : kind.key ≠ "type.invalid" := fun h =>
      (Diagnostic.Kind.key_eq_typeInvalid.1 h).elim h₁ h₂
    rw [getD_get?_byKey]
    refine List.countP_congr fun d _ => ?_
    simp only [decide_eq_true_eq, Diagnostic.Kind.key_eq_key hkey]
  classes := classesWithErrors_eq_card r
  classes_eq_zero := by
    rw [classesWithErrors_eq_card, Finset.card_eq_zero, List.toFinset_eq_empty_iff,
      List.map_eq_nil_iff]
    exact List.length_eq_zero_iff.symm

end

end Metrics

/-! ## Reordered reports -/

section

variable {r r' : Report}

theorem Metrics.coverage_of_perm (h : r'.positions.Perm r.positions) :
    (ofReport r').coverage = (ofReport r).coverage :=
  Coverage.foldl_add_perm ((h.filterMap Position.marking).map Marking.origin)

theorem Metrics.distribution_of_perm (h : r'.positions.Perm r.positions) :
    (ofReport r').distribution = (ofReport r).distribution :=
  Distribution.foldl_add_perm ((h.filterMap Position.marking).map Marking.qualifier)

theorem Metrics.byKey_of_perm (h : r'.diagnostics.Perm r.diagnostics) :
    (ofReport r').diagnostics.byKey.entries.Perm (ofReport r).diagnostics.byKey.entries :=
  OrderedMap.entries_foldl_bump_perm (h.map fun d => d.diagnostic.kind.key)

theorem Metrics.classesWithErrors_of_perm (h : r'.diagnostics.Perm r.diagnostics) :
    (ofReport r').diagnostics.classesWithErrors = (ofReport r).diagnostics.classesWithErrors := by
  show (DiagnosticSummary.ofDiagnostics _).classesWithErrors =
    (DiagnosticSummary.ofDiagnostics _).classesWithErrors
  rw [classesWithErrors_eq_card, classesWithErrors_eq_card,
    List.toFinset_eq_of_perm _ _ (h.map fun d => d.location.className)]

end

/-- The metrics of a report count every position with a qualifier and every diagnostic exactly once.
The order of the positions makes no difference, and that of the diagnostics at most to the order in
which the keys are listed. -/
theorem metrics_conserve_report (r : Report) :
    (Metrics.ofReport r).CountsPositions r ∧
    (Metrics.ofReport r).diagnostics.Counts r ∧
    (∀ r' : Report, r'.positions.Perm r.positions → r'.diagnostics = r.diagnostics →
      Metrics.ofReport r' = Metrics.ofReport r) ∧
    ∀ r' : Report, r'.positions.Perm r.positions → r'.diagnostics.Perm r.diagnostics →
      ∃ byKey, byKey.entries.Perm (Metrics.ofReport r).diagnostics.byKey.entries ∧
        Metrics.ofReport r' = {
          coverage := (Metrics.ofReport r).coverage
          distribution := (Metrics.ofReport r).distribution
          diagnostics := {
            total := (Metrics.ofReport r).diagnostics.total
            byKey := byKey
            classesWithErrors := (Metrics.ofReport r).diagnostics.classesWithErrors } } := by
  refine ⟨Metrics.countsPositions_ofReport r, Metrics.counts_ofDiagnostics r,
    fun r' hpositions hdiagnostics => ?_, fun r' hpositions hdiagnostics => ?_⟩
  · have hsummary : (Metrics.ofReport r').diagnostics = (Metrics.ofReport r).diagnostics :=
      congrArg Metrics.DiagnosticSummary.ofDiagnostics hdiagnostics
    rw [Metrics.mk.injEq]
    exact ⟨Metrics.coverage_of_perm hpositions, Metrics.distribution_of_perm hpositions, hsummary⟩
  · refine ⟨(Metrics.ofReport r').diagnostics.byKey, Metrics.byKey_of_perm hdiagnostics, ?_⟩
    rw [Metrics.mk.injEq, Metrics.DiagnosticSummary.mk.injEq]
    exact ⟨Metrics.coverage_of_perm hpositions, Metrics.distribution_of_perm hpositions,
      hdiagnostics.length_eq, rfl, Metrics.classesWithErrors_of_perm hdiagnostics⟩

/-- A report with positions of several origins, one of them without a qualifier, and with
diagnostics of three kinds under two keys. -/
def stockReport : Report where
  diagnostics := [
    ⟨⟨"Shelf", "put"⟩, ⟨.typeInvalid, "@Bottom cannot be written in source"⟩⟩,
    ⟨⟨"Stock", "count"⟩, ⟨.invalidCastQualifier, "@Bottom cannot be written in source"⟩⟩,
    ⟨⟨"Shelf", "put"⟩, ⟨.illegalWrite, "cannot write field items"⟩⟩]
  positions := [
    .written .instanceField (.declared "Shelf") (some .readonly),
    .bare .binary (.declared "Shelf"),
    (Position.bare .localVariable (.declared "Shelf")).fill .mutable .defaulted,
    (Position.bare .localVariable (.declared "Stock")).fill .readonly .refined]
  constructors := []
  objects := ∅

/-- Read backwards, the report has the same metrics, with its two keys in the other order. -/
theorem metrics_conserve_report_stockReport :
    (Metrics.ofReport stockReport).coverage = ⟨3, 1, 1, 0, 1⟩ ∧
    (Metrics.ofReport stockReport).diagnostics.byKey.entries =
      [("type.invalid", 2), ("illegal.write", 1)] ∧
    ∃ byKey : OrderedMap String Nat, byKey.entries = [("illegal.write", 1), ("type.invalid", 2)] ∧
      byKey.entries.Perm [("type.invalid", 2), ("illegal.write", 1)] ∧
      Metrics.ofReport { stockReport with
          diagnostics := stockReport.diagnostics.reverse
          positions := stockReport.positions.reverse } =
        ⟨⟨3, 1, 1, 0, 1⟩, (Metrics.ofReport stockReport).distribution, ⟨3, byKey, 2⟩⟩ := by
  obtain ⟨hpositions, -, -, hreordered⟩ := metrics_conserve_report stockReport
  have hcoverage : (Metrics.ofReport stockReport).coverage = ⟨3, 1, 1, 0, 1⟩ :=
    hpositions.coverage.trans (by decide)
  have hbyKey : (Metrics.ofReport stockReport).diagnostics.byKey.entries =
      [("type.invalid", 2), ("illegal.write", 1)] := by decide
  obtain ⟨byKey, hperm, heq⟩ := hreordered
    { stockReport with
      diagnostics := stockReport.diagnostics.reverse
      positions := stockReport.positions.reverse }
    (List.reverse_perm _) (List.reverse_perm _)
  have hsame := congrArg (fun m => m.diagnostics.byKey.entries) heq
  refine ⟨hcoverage, hbyKey, byKey, hsame.symm.trans (by decide), hbyKey ▸ hperm, ?_⟩
  rw [heq, hcoverage]
  rfl

end Mutability
