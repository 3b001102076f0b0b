import Mutability.Proofs.ConstructorSummaries
import Mutability.Proofs.InitializationOrder

/-!
# The states of new objects

What a report says about a new object of a class covers every constructor of the class and nothing
more: it is the least state above those in which the constructors leave their object. A constructor
leaves it initialized or not at all (`Checker.finalState`), so there are three cases for the class:
all its constructors set everything, none does, or some do (`initialization_cases`).
-/

namespace Mutability

namespace OrderedMap

theorem keys_merge {κ α : Type} [DecidableEq κ] {m n : OrderedMap κ α}
    (h : (m.keys ++ n.keys).Nodup) : (m.merge n).keys = m.keys ++ n.keys := by
  unfold keys at h ⊢
  rw [← List.map_append] at h
  rw [merge_entries, putAll_nil_append _ _ h, List.map_append]

end OrderedMap

theorem Report.get?_ofObject? (name : String) (object : Option ObjectState) :
    (ofObject? name object).objects.get? name = object := by
  cases object with
  | none => rfl
  | some o =>
    show ((∅ : OrderedMap String ObjectState).insert name o).get? name = some o
    rw [OrderedMap.get?_insert, if_pos rfl]

/-! ## Classes with constructors -/

/-- The names of the classes with a constructor, in order. -/
def constructible (cs : List ClassDecl) : List String :=
  (cs.filter fun c => !c.constructors.isEmpty).map ClassDecl.name

theorem constructible_append (cs cs' : List ClassDecl) :
    constructible (cs ++ cs') = constructible cs ++ constructible cs' := by
  unfold constructible
  rw [List.filter_append, List.map_append]

theorem nodup_constructible {cs : List ClassDecl} (h : (cs.map ClassDecl.name).Nodup) :
    (constructible cs).Nodup :=
  h.sublist (List.filter_sublist.map ClassDecl.name)

section

variable {π : Policy} {c : ClassDecl} {d : Report}

theorem SummedUp.keys (h : SummedUp π c d) : d.objects.keys = constructible [c] := by
  have hsummaries := h.constructors
  rw [h.objects]
  cases hc : c.constructors with
  | nil =>
    have hnone : constructible [c] = [] := by simp [constructible, hc]
    rw [hc] at hsummaries
    rw [List.forall₂_nil_left_iff.1 hsummaries, hnone]
    rfl
  | cons k ks =>
    have hown : constructible [c] = [c.name] := by simp [constructible, hc]
    rw [hc, List.zipIdx_cons] at hsummaries
    obtain ⟨s, ss, -, -, hd⟩ := List.forall₂_cons_left_iff.1 hsummaries
    rw [hd, hown]
    rfl

theorem keys_objects_concat {cs : List ClassDecl} {ds : List Report}
    (h : List.Forall₂ (SummedUp π) cs ds) (hn : (cs.map ClassDecl.name).Nodup) :
    (Report.concat ds).objects.keys = constructible cs := by
  induction h with
  | nil => rfl
  | @cons c d cs ds hc _ ih =>
    have hrest := ih (List.nodup_cons.1 hn).2
    have hsplit : constructible (c :: cs) = d.objects.keys ++ (Report.concat ds).objects.keys := by
      rw [hc.keys, hrest, ← constructible_append]
      rfl
    show (d.objects.merge (Report.concat ds).objects).keys = _
    rw [hsplit]
    refine OrderedMap.keys_merge ?_
    rw [← hsplit]
    exact nodup_constructible hn

/-- What a report says about a class: the summaries of its constructors and their join. -/
theorem Program.summaries_of_check {p : Program} {r : Report}
    (hn : (p.classes.map ClassDecl.name).Nodup) (h : p.check π = .ok r) (hc : c ∈ p.classes) :
    List.Forall₂ (Summarizes π c) c.constructors.zipIdx (r.on c.name).constructors ∧
      r.objects.get? c.name =
        ObjectState.joinAll? ((r.on c.name).constructors.map ConstructorSummary.object) := by
  obtain ⟨ds, hds, hconstructors, hobjects⟩ := Program.exists_concat_of_check hn h
  obtain ⟨d, hd, hon⟩ := Report.on_concat (fun c d hcd => hcd.about) hds hn hc
  have hown : (d.on c.name).constructors = d.constructors := by
    refine List.filter_eq_self.2 fun s hs => ?_
    simpa using hd.about.constructors s hs
  have hall : (r.on c.name).constructors = d.constructors := by
    rw [← hown, ← hon]
    unfold Report.on
    rw [hconstructors]
  have hobject : r.objects.get? c.name = d.objects.get? c.name := by
    rw [hobjects]
    exact congrArg ClassReport.object hon
  rw [hall, hobject, hd.objects, Report.get?_ofObject?]
  exact ⟨hd.constructors, rfl⟩

end

/-! ## Initialization -/

/-- The least state above those of constructors that leave these fields unset. -/
theorem initialization_cases {α : Type} {ks : List α} {unset : α → List String} {s : InitState}
    (hne : ks ≠ []) (hupper : ∀ k ∈ ks, Checker.finalState (unset k) ≤ s)
    (hleast : ∀ u, (∀ k ∈ ks, Checker.finalState (unset k) ≤ u) → s ≤ u) :
    (s = .initialized ↔ ∀ k ∈ ks, unset k = []) ∧
    (s = .underInitialization 0 ↔ ∀ k ∈ ks, unset k ≠ []) ∧
    (s = .unknownInitialization 0 ↔ (∃ k ∈ ks, unset k = []) ∧ ∃ k ∈ ks, unset k ≠ []) := by
  have hdone : ∀ k, unset k = [] → Checker.finalState (unset k) = .initialized := by
    intro k hk
    rw [hk]
    rfl
  have hopen : ∀ k, unset k ≠ [] → Checker.finalState (unset k) = .underInitialization 0 := by
    intro k hk
    simp [Checker.finalState, hk]
  obtain ⟨k₀, hk₀⟩ := List.exists_mem_of_ne_nil ks hne
  -- States that agree are their own least bound.
  have hsame : ∀ t, (∀ k ∈ ks, Checker.finalState (unset k) = t) → s = t := by
    intro t ht
    have hle : s ≤ t := hleast t fun k hk => ht k hk ▸ InitState.le_refl _
    have hge : t ≤ s := ht k₀ hk₀ ▸ hupper k₀ hk₀
    exact InitState.le_antisymm hle hge
  by_cases hall : ∀ k ∈ ks, unset k = []
  · obtain rfl := hsame .initialized fun k hk => hdone k (hall k hk)
    grind
  by_cases hnone : ∀ k ∈ ks, unset k ≠ []
  · obtain rfl := hsame (.underInitialization 0) fun k hk => hopen k (hnone k hk)
    grind
  · obtain ⟨k, hk, hkset⟩ : ∃ k ∈ ks, unset k = [] := by simpa using hnone
    obtain ⟨k', hk', hkunset⟩ : ∃ k ∈ ks, unset k ≠ [] := by simpa using hall
    have hle := hupper k hk
    have hle' := hupper k' hk'
    rw [hdone k hkset] at hle
    rw [hopen k' hkunset] at hle'
    obtain ⟨n, rfl⟩ := InitState.eq_unknownInitialization_of_le (by decide) (by decide)
      (by decide) hle hle'
    -- The depth of an object with an unset field is zero, and so is the one they have in common.
    have hn : n ≤ 0 := InitState.le_unknownInitialization.1 hle'
    obtain rfl : n = 0 := UInt32.le_antisymm hn UInt32.zero_le
    grind

section

variable {π : Policy} {c : ClassDecl} {ss : List ConstructorSummary}

theorem exists_summary_of_mem (h : List.Forall₂ (Summarizes π c) c.constructors.zipIdx ss)
    {k : ConstructorDecl} (hk : k ∈ c.constructors) :
    ∃ s ∈ ss, s.object.initialization = Checker.finalState (c.unsetBy π k) := by
  obtain ⟨i, hi⟩ := List.mem_iff_getElem?.1 hk
  have hmem : (k, i) ∈ c.constructors.zipIdx := List.mem_zipIdx_iff_getElem?.2 hi
  obtain ⟨s, hs, hsum⟩ := exists_of_mem_forall₂ h.flip hmem
  exact ⟨s, hs, hsum.initialization_eq⟩

theorem exists_constructor_of_mem (h : List.Forall₂ (Summarizes π c) c.constructors.zipIdx ss)
    {s : ConstructorSummary} (hs : s ∈ ss) :
    ∃ k ∈ c.constructors, s.object.initialization = Checker.finalState (c.unsetBy π k) := by
  obtain ⟨x, hx, hsum⟩ := exists_of_mem_forall₂ h hs
  have hi := List.mem_zipIdx_iff_getElem?.1 hx
  exact ⟨x.1, List.mem_iff_getElem?.2 ⟨x.2, hi⟩, hsum.initialization_eq⟩

/-- The join of the states of objects, seen by the constructors that leave them. -/
theorem initialization_of_joinAll? (h : List.Forall₂ (Summarizes π c) c.constructors.zipIdx ss)
    (hne : c.constructors ≠ []) {o : ObjectState}
    (ho : ObjectState.joinAll? (ss.map ConstructorSummary.object) = some o) :
    (o.initialization = .initialized ↔ ∀ k ∈ c.constructors, c.unsetBy π k = []) ∧
    (o.initialization = .underInitialization 0 ↔ ∀ k ∈ c.constructors, c.unsetBy π k ≠ []) ∧
    (o.initialization = .unknownInitialization 0 ↔
      (∃ k ∈ c.constructors, c.unsetBy π k = []) ∧ ∃ k ∈ c.constructors, c.unsetBy π k ≠ []) := by
  have hbounds := (ObjectState.joinAll?_eq_some.1 ho).2
  have habove : ∀ s ∈ ss, s.object ≤ o := by
    intro s hs
    exact (hbounds o).1 le_rfl s.object (List.mem_map_of_mem hs)
  refine initialization_cases hne (fun k hk => ?_) fun u hu => ?_
  · obtain ⟨s, hs, hstate⟩ := exists_summary_of_mem h hk
    rw [← hstate]
    exact (ObjectState.le_iff.1 (habove s hs)).2
  · -- A bound of the second components is completed by the first component of the join.
    have hle : o ≤ ⟨o.mutability, u⟩ := by
      rw [hbounds, List.forall_mem_map]
      intro s hs
      obtain ⟨k, hk, hstate⟩ := exists_constructor_of_mem h hs
      refine ObjectState.le_iff.2 ⟨(ObjectState.le_iff.1 (habove s hs)).1, ?_⟩
      rw [hstate]
      exact hu k hk
    exact (ObjectState.le_iff.1 hle).2

end

/-- In the report of a program whose classes have different names there is a state of new objects
for exactly the classes with a constructor, in order. It is the least state above those in which the
constructors leave their object, whichever way these are joined. New objects are initialized if
every constructor sets everything it has to, under initialization if none does, and neither is
known otherwise. -/
theorem object_states_least (π : Policy) (p : Program) (r : Report)
    (hn : (p.classes.map ClassDecl.name).Nodup) (h : p.check π = .ok r) :
    r.objects.keys = (p.classes.filter fun c => !c.constructors.isEmpty).map ClassDecl.name ∧
    ∀ c ∈ p.classes, c.constructors ≠ [] → ∃ object, r.objects.get? c.name = some object ∧
      List.Forall₂ (Summarizes π c) c.constructors.zipIdx (r.on c.name).constructors ∧
      (∀ s ∈ (r.on c.name).constructors, s.object ≤ object) ∧
      (∀ u, (∀ s ∈ (r.on c.name).constructors, s.object ≤ u) → object ≤ u) ∧
      (∀ os, os.Perm ((r.on c.name).constructors.map ConstructorSummary.object) →
        ObjectState.joinAll? os = some object) ∧
      (object.initialization = .initialized ↔ ∀ k ∈ c.constructors, c.unsetBy π k = []) ∧
      (object.initialization = .underInitialization 0 ↔
        ∀ k ∈ c.constructors, c.unsetBy π k ≠ []) ∧
      (object.initialization = .unknownInitialization 0 ↔
        (∃ k ∈ c.constructors, c.unsetBy π k = []) ∧
          ∃ k ∈ c.constructors, c.unsetBy π k ≠ []) := by
  constructor
  · obtain ⟨ds, hds, -, hobjects⟩ := Program.exists_concat_of_check hn h
    rw [hobjects]
    exact keys_objects_concat hds hn
  intro c hc hne
  obtain ⟨hsummaries, hobject⟩ := Program.summaries_of_check hn h hc
  obtain ⟨k, hk⟩ := List.exists_mem_of_ne_nil _ hne
  obtain ⟨s, hs, -⟩ := exists_summary_of_mem hsummaries hk
  obtain ⟨object, hjoin⟩ := ObjectState.exists_joinAll?
    (List.ne_nil_of_mem (List.mem_map_of_mem (f := ConstructorSummary.object) hs))
  have hbounds := (ObjectState.joinAll?_eq_some.1 hjoin).2
  simp only [List.forall_mem_map] at hbounds
  refine ⟨object, hobject.trans hjoin, hsummaries, (hbounds object).1 le_rfl,
    fun u => (hbounds u).2, fun os hos => ?_, initialization_of_joinAll? hsummaries hne hjoin⟩
  rw [ObjectState.joinAll?_perm hos, hjoin]

/-- A class whose first constructor sets its field and whose second one does not. -/
def meterClass : ClassDecl where
  name := "Meter"
  fields := [⟨"unit", .declared "java.lang.String", none, false, true, false⟩]
  constructors := [
    ⟨some "@Mutable", [⟨"u", .declared "java.lang.String", none⟩],
      [.fieldWrite .self "unit" (.var "u")]⟩,
    ⟨some "@Immutable", [], []⟩]
  methods := []

/-- The class without constructors has no state. New objects of the other one may be mutable or
immutable, and with their field set or without. -/
theorem object_states_least_meterClass :
    ∃ r, (Program.mk [⟨"Scale", [], [], []⟩, meterClass]).check default = .ok r ∧
      r.objects.keys = ["Meter"] ∧
      r.objects.get? "Meter" = some ⟨.readonly, .unknownInitialization 0⟩ := by
  have hok : ((Program.mk [⟨"Scale", [], [], []⟩, meterClass]).check default).toOption.isSome =
      true := by
    decide +kernel
  cases hr : (Program.mk [⟨"Scale", [], [], []⟩, meterClass]).check default with
  | error f => rw [hr] at hok; cases hok
  | ok r =>
    obtain ⟨hkeys, hstates⟩ := object_states_least default _ r (by decide) hr
    have hmeter : meterClass ∈ [⟨"Scale", [], [], []⟩, meterClass] :=
      List.mem_cons_of_mem _ List.mem_cons_self
    obtain ⟨object, hobject, hsummaries, -, -, hperm, -⟩ := hstates meterClass hmeter (by decide)
    obtain ⟨s, rest, hs, hrest, hall⟩ := List.forall₂_cons_left_iff.1 hsummaries
    obtain ⟨s', rest', hs', hnil, rfl⟩ := List.forall₂_cons_left_iff.1 hrest
    obtain rfl := List.forall₂_nil_left_iff.1 hnil
    have hfirst : s.object = ⟨.mutable, .initialized⟩ :=
      Option.some.inj (hs.object_eq.trans (by decide +kernel))
    have hsecond : s'.object = ⟨.immutable, .underInitialization 0⟩ :=
      Option.some.inj (hs'.object_eq.trans (by decide +kernel))
    have hjoin := hperm [s'.object, s.object] (by rw [hall]; exact List.Perm.swap _ _ _)
    rw [hfirst, hsecond] at hjoin
    refine ⟨r, rfl, hkeys, hobject.trans (hjoin.symm.trans ?_)⟩
    decide +kernel

end Mutability
