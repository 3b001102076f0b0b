import Mutability.Metrics
import Mutability.Proofs.IllegalAnnotations
import Mutability.Proofs.TypingTables

/-!
# The ledger of positions

The positions of a report are those of the slots of its program, each after defaulting: first the
declarations of all classes, then the local declarations in their bodies
(`position_ledger_complete`). No stage of defaulting leaves any other origin than `explicit`, where
an annotation is written, and `defaulted`, where none is; so the coverage of the report counts the
annotations of the program.
-/

namespace Mutability

/-- Where the qualifier of the slot comes from after defaulting. -/
def Slot.origin (s : Slot) : Origin :=
  if s.text.isSome then .explicit else .defaulted

/-- A recorded position has its qualifier from the program exactly if one is written there. -/
theorem Slot.RecordedAs.eq_marked {π : Policy} {s : Slot} {p : Position}
    (h : s.RecordedAs π p) : ∃ q, p = ⟨s.kind, s.host, some ⟨q, s.origin⟩⟩ := by
  obtain ⟨⟨explicit, hexp, rfl⟩, q, hq⟩ := h
  have hsome : explicit.isSome = s.text.isSome := Checker.isSome_of_resolve? hexp
  unfold Slot.origin
  rw [← hsome]
  cases explicit with
  | none =>
    rcases π.annotate_cases (.written s.kind s.host none) with heq | ⟨-, q', heq⟩
    · rw [heq] at hq
      cases hq
    · exact ⟨q', heq⟩
  | some w => exact ⟨w, π.annotate_of_isExplicit rfl⟩

theorem Slot.Becomes.eq_annotate {π : Policy} {s : Slot} {p : Position} (h : s.Becomes π p) :
    p = π.annotate (s.asWritten π) := by
  obtain ⟨explicit, hexp, rfl⟩ := h
  rw [Slot.asWritten_of_resolve? hexp]

/-! ## Coverage -/

namespace Metrics

theorem Coverage.foldl_add (os : List Origin) (c : Coverage) :
    os.foldl Coverage.add c = ⟨c.total + os.length, c.explicit + os.count .explicit,
      c.defaulted + os.count .defaulted, c.propagated + os.count .propagated,
      c.refined + os.count .refined⟩ := by
  induction os generalizing c with
  | nil => rfl
  | cons o rest ih =>
    rw [List.foldl_cons, ih]
    cases o <;> simp [Coverage.add, Nat.add_assoc, Nat.add_comm 1]

end Metrics

theorem Slot.count_origin (slots : List Slot) :
    (slots.map Slot.origin).count .explicit = slots.countP (fun s => s.text.isSome) ∧
      (slots.map Slot.origin).count .defaulted = slots.countP (fun s => s.text.isNone) ∧
      (slots.map Slot.origin).count .propagated = 0 ∧
      (slots.map Slot.origin).count .refined = 0 := by
  induction slots with
  | nil => exact ⟨rfl, rfl, rfl, rfl⟩
  | cons s rest ih =>
    obtain ⟨hexplicit, hdefaulted, hpropagated, hrefined⟩ := ih
    cases ht : s.text <;>
      simp [Slot.origin, ht, hexplicit, hdefaulted, hpropagated, hrefined]

/-- The origins of positions, by the slots that they are recorded for. -/
theorem Slot.origins_of_recorded {π : Policy} {slots : List Slot} {ps : List Position}
    (h : List.Forall₂ (Slot.RecordedAs π) slots ps) :
    (ps.filterMap Position.marking).map Marking.origin = slots.map Slot.origin := by
  induction h with
  | nil => rfl
  | @cons s p slots ps hp _ ih =>
    obtain ⟨q, rfl⟩ := hp.eq_marked
    simp only [List.filterMap_cons, List.map_cons, ih]

theorem Metrics.coverage_of_recorded {π : Policy} {slots : List Slot} {r : Report}
    (h : List.Forall₂ (Slot.RecordedAs π) slots r.positions) :
    (Metrics.ofReport r).coverage = ⟨slots.length, slots.countP (fun s => s.text.isSome),
      slots.countP (fun s => s.text.isNone), 0, 0⟩ := by
  have horigins : r.markings.map Marking.origin = slots.map Slot.origin :=
    Slot.origins_of_recorded h
  obtain ⟨hexplicit, hdefaulted, hpropagated, hrefined⟩ := Slot.count_origin slots
  unfold Metrics.ofReport
  rw [horigins, Coverage.foldl_add, hexplicit, hdefaulted, hpropagated, hrefined]
  simp [Coverage.empty]

/-! ## Reports -/

open Checker

/-- The positions of a report are those of the slots of the program after defaulting, in the order
of the passes. Each has a qualifier, which is explicit where an annotation is written and given by
default elsewhere. The coverage counts the slots and the annotations, and nothing is propagated or
refined. -/
theorem position_ledger_complete (π : Policy) (p : Program) (r : Report)
    (h : p.check π = .ok r) :
    r.positions = (p.slots ++ p.localSlots).map (fun s => π.annotate (s.asWritten π)) ∧
    (∀ s ∈ p.slots ++ p.localSlots,
      (∃ explicit, π.resolve? s.text = .ok explicit ∧
        s.asWritten π = .written s.kind s.host explicit) ∧
      ∃ q, π.annotate (s.asWritten π) =
        ⟨s.kind, s.host, some ⟨q, if s.text.isSome then .explicit else .defaulted⟩⟩) ∧
    (Metrics.ofReport r).coverage.total = (p.slots ++ p.localSlots).length ∧
    (Metrics.ofReport r).coverage = {
      total := (p.slots ++ p.localSlots).length
      explicit := (p.slots ++ p.localSlots).countP fun s => s.text.isSome
      defaulted := (p.slots ++ p.localSlots).countP fun s => s.text.isNone
      propagated := 0
      refined := 0 } := by
  have hrecorded := (Program.visited_of_check h).positions
  have hcoverage := Metrics.coverage_of_recorded hrecorded
  have hpositions : r.positions =
      (p.slots ++ p.localSlots).map (fun s => π.annotate (s.asWritten π)) := by
    rw [← List.forall₂_eq_eq_eq, List.forall₂_map_right_iff]
    exact hrecorded.flip.imp fun x s hx => hx.becomes.eq_annotate
  refine ⟨hpositions, fun s hs => ?_, congrArg Metrics.Coverage.total hcoverage, hcoverage⟩
  obtain ⟨i, hi⟩ := List.mem_iff_getElem?.1 hs
  obtain ⟨x, -, hx⟩ := getElem?_of_forall₂ hrecorded hi
  obtain ⟨explicit, hexp, -⟩ := hx.becomes
  obtain ⟨q, hq⟩ := hx.eq_marked
  rw [hx.becomes.eq_annotate] at hq
  exact ⟨⟨explicit, hexp, Slot.asWritten_of_resolve? hexp⟩, q, hq⟩

/-- A class with annotated and other positions of every kind, and with texts at the receiver of a
static method and at a return that does not exist. -/
def parcelClass : ClassDecl where
  name := "Parcel"
  fields := [⟨"label", .declared "java.lang.String", none, false, true, false⟩]
  constructors := [⟨some "@Mutable", [⟨"l", .declared "java.lang.String", none⟩],
    [.localVar "copy" (.declared "java.lang.String") none (some (.var "l")),
      .fieldWrite .self "label" (.var "copy")]⟩]
  methods := [
    { name := "weigh", isStatic := true, receiverText := some "@Mutable"
      params := [⟨"p", .declared "Parcel", some "@Readonly"⟩], returns := none
      returnText := some "@Mutable"
      body := [.localVar "q" (.declared "Parcel") (some "@Readonly") (some (.var "p"))] }]

/-- Of six positions three are annotated; the texts that belong to no position are not counted. -/
theorem position_ledger_complete_parcelClass :
    ∃ r, (Program.mk [parcelClass]).check default = .ok r ∧
      r.positions.map Position.kind = [.instanceField, .constructorReturn,
        .parameter "<init>" 0, .parameter "weigh" 0, .localVariable, .localVariable] ∧
      (Metrics.ofReport r).coverage.total = 6 ∧
      (Metrics.ofReport r).coverage = ⟨6, 3, 3, 0, 0⟩ := by
  have hok : ((Program.mk [parcelClass]).check default).toOption.isSome = true := by
    decide +kernel
  cases hr : (Program.mk [parcelClass]).check default with
  | error f => rw [hr] at hok; cases hok
  | ok r =>
    obtain ⟨hpositions, -, htotal, hcoverage⟩ :=
      position_ledger_complete default ⟨[parcelClass]⟩ r hr
    refine ⟨r, rfl, ?_, htotal.trans (by decide), hcoverage.trans (by decide)⟩
    rw [hpositions]
    decide +kernel

end Mutability
