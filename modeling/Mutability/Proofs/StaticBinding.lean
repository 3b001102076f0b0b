import Mutability.Law.Sample
import Mutability.Proofs.Concrete
import Mutability.Proofs.QualifierBounds

/-!
# The binding of a static call

A static method with a polymorphic return is typed anew at each call: the return and every parameter
that is left open become one qualifier, the least one above all arguments that are passed for such
parameters (`Signature.binding_le_iff`). With any other return nothing is bound. Larger arguments
never give a smaller binding (`Signature.binding_mono`).

The two laws that are tried on sampled signatures follow for all of them, so no run of the samples
can report a failure (`Sample.isProven_of_mem_verdicts`).
-/

namespace Mutability

namespace Qualifier

theorem eq_bottom_of_le {q : Qualifier} (h : q ≤ bottom) : q = bottom :=
  le_antisymm h (bottom_le q)

/-- A type that is not fixed by the declaration of a static method but by each call. -/
def IsOpen (q : Qualifier) : Prop :=
  q = .polyMutable ∨ q = .substitutable

instance (q : Qualifier) : Decidable q.IsOpen :=
  inferInstanceAs (Decidable (_ ∨ _))

end Qualifier

theorem mem_zip_iff {α β : Type} {as : List α} {bs : List β} {x : α × β} :
    x ∈ as.zip bs ↔ ∃ i : Nat, as[i]? = some x.1 ∧ bs[i]? = some x.2 := by
  simp only [List.mem_iff_getElem?, List.getElem?_zip_eq_some]

namespace Signature

/-! ## Placeholders -/

theorem toPlaceholder_eq_substitutable {q : Qualifier} :
    toPlaceholder q = .substitutable ↔ q.IsOpen := by
  cases q <;> decide

theorem ofPlaceholder_toPlaceholder_eq (b q : Qualifier) :
    ofPlaceholder b (toPlaceholder q) = if q.IsOpen then b else q := by
  cases q <;> rfl

theorem mem_placeholderArguments {params args : List Qualifier} {a : Qualifier} :
    a ∈ placeholderArguments params args ↔
      ∃ i : Nat, params[i]? = some .substitutable ∧ args[i]? = some a := by
  simp only [placeholderArguments, List.mem_map, List.mem_filter, mem_zip_iff, decide_eq_true_eq]
  constructor
  · rintro ⟨⟨q, a'⟩, ⟨⟨i, hq, ha⟩, rfl⟩, rfl⟩
    exact ⟨i, hq, ha⟩
  · rintro ⟨i, hq, ha⟩
    exact ⟨(.substitutable, a), ⟨⟨i, hq, ha⟩, rfl⟩, rfl⟩

section Static

variable {s : Signature} {args : List Qualifier}

/-- The qualifier is that of an argument which is passed for an open parameter. -/
def PassedOpen (s : Signature) (args : List Qualifier) (a : Qualifier) : Prop :=
  ∃ (i : Nat) (q : Qualifier), s.params[i]? = some q ∧ q.IsOpen ∧ args[i]? = some a

theorem seenFrom_of_static (hs : s.isStatic = true) (r : Option Qualifier) :
    s.seenFrom r = s.substituteStatic :=
  if_pos hs

theorem substituteStatic_of_poly (hp : s.ret = .polyMutable) :
    s.substituteStatic = { s with ret := .substitutable, params := s.params.map toPlaceholder } :=
  if_pos hp

theorem substituteStatic_of_not_poly (hp : s.ret ≠ .polyMutable) : s.substituteStatic = s :=
  if_neg hp

theorem bind_qualifier_le_iff (s : Signature) (args : List Qualifier) {u : Qualifier} :
    (s.bind args).qualifier ≤ u ↔
      ∀ (i : Nat) (a : Qualifier), s.params[i]? = some .substitutable → args[i]? = some a →
        a ≤ u := by
  show Qualifier.joinAll (placeholderArguments s.params args) ≤ u ↔ _
  simp only [Qualifier.joinAll_le_iff, mem_placeholderArguments]
  constructor
  · intro h i a hq ha
    exact h a ⟨i, hq, ha⟩
  · rintro h a ⟨i, hq, ha⟩
    exact h i a hq ha

/-- With a polymorphic return, the binding is the least qualifier above the arguments that are
passed for open parameters. -/
theorem binding_le_iff (hp : s.ret = .polyMutable) {u : Qualifier} :
    (s.substituteStatic.bind args).qualifier ≤ u ↔ ∀ a, s.PassedOpen args a → a ≤ u := by
  rw [bind_qualifier_le_iff, substituteStatic_of_poly hp]
  simp only [List.getElem?_map, Option.map_eq_some_iff, toPlaceholder_eq_substitutable]
  constructor
  · rintro h a ⟨i, q, hq, hopen, ha⟩
    exact h i a ⟨q, hq, hopen⟩ ha
  · rintro h i a ⟨q, hq, hopen⟩ ha
    exact h a ⟨i, q, hq, hopen, ha⟩

/-- With a polymorphic return, the return and the open parameters are the binding, and the other
parameters stay. -/
theorem bind_of_poly (hr : s.receiver = none) (hp : s.ret = .polyMutable) :
    let b := s.substituteStatic.bind args
    b.signature = { s with
      params := s.params.map fun q => if q.IsOpen then b.qualifier else q
      ret := b.qualifier } := by
  rw [substituteStatic_of_poly hp]
  unfold bind
  dsimp only
  rw [hr, List.map_map]
  congr 1
  exact List.map_congr_left fun q _ => ofPlaceholder_toPlaceholder_eq _ q

/-- With any other return, and without placeholders of its own, the signature is that of every
call. -/
theorem bind_of_not_poly (hs : s.isStatic = true) (hp : s.ret ≠ .polyMutable) (hc : s.Concrete) :
    (s.substituteStatic.bind args).signature = s ∧
      (s.substituteStatic.bind args).qualifier = .bottom := by
  constructor
  · rw [← seenFrom_of_static hs none, bind_seenFrom_none hc hs, instantiate, if_neg hp]
  · apply Qualifier.eq_bottom_of_le
    rw [substituteStatic_of_not_poly hp, bind_qualifier_le_iff]
    intro i a hq
    exact absurd rfl ((concrete_iff.1 hc).2.2 _ (List.mem_of_getElem? hq))

theorem bind_params_length (s : Signature) (args : List Qualifier) :
    (s.substituteStatic.bind args).signature.params.length = s.params.length := by
  show (s.substituteStatic.params.map _).length = _
  unfold substituteStatic
  split <;> simp

/-- Larger arguments give a binding that is at least as large, whatever the signature is. -/
theorem binding_mono (s : Signature) {args args' : List Qualifier}
    (h : List.Forall₂ (· ≤ ·) args args') : (s.bind args).qualifier ≤ (s.bind args').qualifier := by
  rw [bind_qualifier_le_iff]
  intro i a hq ha
  obtain ⟨a', ha', hle⟩ := getElem?_of_forall₂ h ha
  have habove := (bind_qualifier_le_iff s args').1 (Qualifier.le_refl _) i a' hq ha'
  exact Qualifier.le_trans hle habove

theorem ofPlaceholder_mono {b b' : Qualifier} (h : b ≤ b') (q : Qualifier) :
    ofPlaceholder b q ≤ ofPlaceholder b' q := by
  unfold ofPlaceholder
  split
  · exact h
  · exact Qualifier.le_refl q

end Static

end Signature

/-! ## The laws on all signatures -/

namespace Law

theorem substitutesAllOrNothing_eq_true (s : Signature) : substitutesAllOrNothing s = true := by
  unfold substitutesAllOrNothing
  dsimp only
  by_cases hp : s.ret = .polyMutable
  · rw [Signature.substituteStatic_of_poly hp, ← List.map_prod_left_eq_zip, List.all_cons,
      List.all_map]
    simp only [hp, and_self, and_true, if_true, beq_self_eq_true, Bool.true_and, List.all_eq_true]
    intro q _
    cases q <;> rfl
  · rw [Signature.substituteStatic_of_not_poly hp]
    simp only [hp, and_false, if_false, List.all_cons, beq_self_eq_true, Bool.true_and,
      List.all_eq_true]
    intro x hx
    obtain ⟨i, h, h'⟩ := mem_zip_iff.1 hx
    exact beq_iff_eq.2 (Option.some.inj (h'.symm.trans h))

theorem bindsUniformly_eq (s : Signature) (args : List Qualifier) :
    bindsUniformly s args = if args.length < s.params.length then none else some true := by
  unfold bindsUniformly
  refine if_congr Iff.rfl rfl (congrArg some ?_)
  rw [Bool.and_eq_true, List.all_eq_true, List.all_eq_true]
  constructor
  · intro x hx
    obtain ⟨i, hq, hb⟩ := mem_zip_iff.1 hx
    by_cases hsub : x.1 = .substitutable
    · have hmap : (s.substituteStatic.bind args).signature.params[i]? =
          some (s.substituteStatic.bind args).qualifier := by
        show (s.substituteStatic.params.map _)[i]? = _
        rw [List.getElem?_map, hq, hsub]
        rfl
      have hbound := Option.some.inj (hb.symm.trans hmap)
      simp [hbound]
    · simp [hsub]
  · intro x hx
    obtain ⟨i, hq, ha⟩ := mem_zip_iff.1 hx
    by_cases hsub : x.1 = .substitutable
    · have hle : x.2 ≤ (s.substituteStatic.bind args).qualifier :=
        (Signature.bind_qualifier_le_iff _ args).1 (Qualifier.le_refl _) i x.2 (hsub ▸ hq) ha
      rw [show x.2.le (s.substituteStatic.bind args).qualifier = true from hle, Bool.or_true]
    · simp [hsub]

end Law

namespace Sample

variable {σ α : Type} {draw : StateM σ α} {judge : α → Option Bool}

/-- A law that never fails is never reported as failed, however the samples are drawn. -/
theorem exists_tryOn_eq_ok (draw : StateM σ α) (h : ∀ a, judge a ≠ some false)
    (wanted draws passed : Nat) (source : σ) :
    ∃ n, tryOn draw judge wanted draws passed source = .ok n := by
  induction draws generalizing passed source with
  | zero => exact ⟨passed, rfl⟩
  | succ draws ih =>
    unfold tryOn
    split
    · exact ⟨passed, rfl⟩
    · rcases draw.run source with ⟨a, next⟩
      dsimp only
      split
      · exact ih _ _
      · next hfalse => exact absurd hfalse (h _)
      · exact ih _ _

theorem isProven_verdict (h : ∀ a, judge a ≠ some false) (name : String) (source : σ)
    (describe : α → String) (tests : Nat) :
    (verdict name draw source judge describe tests).isProven = true := by
  obtain ⟨n, hn⟩ := exists_tryOn_eq_ok draw h tests (10 * tests) 0 source
  unfold verdict
  rw [hn]
  rfl

/-- Whatever the samples and their number, the laws about signatures come out as proven. -/
theorem isProven_of_mem_verdicts {signature : StateM σ Signature}
    {call : StateM σ (Signature × List Qualifier)} {source : σ} {tests : Nat} {v : Verdict}
    (hv : v ∈ verdicts signature call source tests) : v.isProven = true := by
  unfold verdicts at hv
  rcases List.mem_cons.1 hv with rfl | hv
  · refine isProven_verdict (fun s => ?_) _ _ _ tests
    rw [Law.substitutesAllOrNothing_eq_true]
    decide
  · obtain rfl := List.mem_singleton.1 hv
    refine isProven_verdict (fun c => ?_) _ _ _ tests
    rw [Law.bindsUniformly_eq]
    split <;> decide

end Sample

/-! ## Static calls -/

/-- A static signature without a receiver is bound at every call uniformly and to the least
qualifier that accepts the arguments, or not at all if its return is not polymorphic. Larger
arguments give no smaller binding and return. So the laws about signatures hold of all signatures
and arguments, the second one where there are enough of them, and no source of samples makes them
fail. -/
theorem static_call_binds_least (s : Signature) :
    (s.isStatic = true → s.receiver = none → ∀ (r : Option Qualifier) (args : List Qualifier),
      let b := (s.seenFrom r).bind args
      (s.ret = .polyMutable →
        b.signature = { s with
          params := s.params.map fun q => if q.IsOpen then b.qualifier else q
          ret := b.qualifier } ∧
        (∀ a, s.PassedOpen args a → a ≤ b.qualifier) ∧
        (∀ u, (∀ a, s.PassedOpen args a → a ≤ u) → b.qualifier ≤ u) ∧
        ((∀ a, ¬ s.PassedOpen args a) → b.qualifier = .bottom)) ∧
      (s.ret ≠ .polyMutable → .substitutable ∉ s.qualifiers →
        b.signature = s ∧ b.qualifier = .bottom) ∧
      b.signature.params.length = s.params.length ∧
      ∀ args', List.Forall₂ (· ≤ ·) args args' →
        b.qualifier ≤ ((s.seenFrom r).bind args').qualifier ∧
        b.signature.ret ≤ ((s.seenFrom r).bind args').signature.ret) ∧
    Law.substitutesAllOrNothing s = true ∧
    (∀ args, Law.bindsUniformly s args ≠ some false ∧
      (Law.bindsUniformly s args = none ↔ args.length < s.params.length)) ∧
    ∀ (σ : Type) (signature : StateM σ Signature) (call : StateM σ (Signature × List Qualifier))
      (source : σ) (tests : Nat), ∀ v ∈ Sample.verdicts signature call source tests,
        v.isProven = true := by
  refine ⟨fun hs hr r args => ?_, Law.substitutesAllOrNothing_eq_true s, fun args => ?_,
    fun σ signature call source tests v hv => Sample.isProven_of_mem_verdicts hv⟩
  · rw [Signature.seenFrom_of_static hs]
    refine ⟨fun hp => ?_, fun hp hc => ?_, Signature.bind_params_length s args, fun args' h => ?_⟩
    · have hleast : ∀ u, (s.substituteStatic.bind args).qualifier ≤ u ↔
          ∀ a, s.PassedOpen args a → a ≤ u := fun u => Signature.binding_le_iff hp
      refine ⟨Signature.bind_of_poly hr hp, ?_, fun u => (hleast u).2, fun hnone => ?_⟩
      · exact (hleast _).1 (Qualifier.le_refl _)
      · exact Qualifier.eq_bottom_of_le ((hleast _).2 fun a ha => absurd ha (hnone a))
    · exact Signature.bind_of_not_poly hs hp fun q hq hsub => hc (hsub ▸ hq)
    · have hmono := s.substituteStatic.binding_mono h
      exact ⟨hmono, Signature.ofPlaceholder_mono hmono _⟩
  · rw [Law.bindsUniformly_eq]
    split <;> simp_all

/-- A method with an open parameter of either form between two that are fixed. -/
def mergeSignature : Signature :=
  ⟨"merge", true, none, [.polyMutable, .readonly, .substitutable, .immutable], .polyMutable⟩

/-- Called with an argument more than it has parameters, it is bound by the two that are passed for
the open ones. -/
theorem static_call_binds_least_mergeSignature :
    let args := [.bottom, .readonly, .mutable, .immutable, .readonly]
    let b := (mergeSignature.seenFrom (some .immutable)).bind args
    mergeSignature.PassedOpen args .bottom ∧ mergeSignature.PassedOpen args .mutable ∧
      (∀ a, mergeSignature.PassedOpen args a → a ≤ .mutable) ∧ b.qualifier = .mutable ∧
      b.signature = ⟨"merge", true, none, [.mutable, .readonly, .mutable, .immutable], .mutable⟩ ∧
      Law.bindsUniformly mergeSignature args = some true := by
  intro args b
  obtain ⟨hstatic, -, hlaw, -⟩ := static_call_binds_least mergeSignature
  obtain ⟨hsignature, habove, -⟩ := (hstatic rfl rfl (some .immutable) args).1 rfl
  have hb : b.qualifier = .mutable := by decide
  refine ⟨⟨0, .polyMutable, rfl, by decide, rfl⟩, ⟨2, .substitutable, rfl, by decide, rfl⟩, ?_, hb,
    ?_, ?_⟩
  · intro a ha
    exact hb ▸ habove a ha
  · exact hsignature.trans (by decide)
  · have hnone : Law.bindsUniformly mergeSignature args ≠ none := fun h =>
      absurd ((hlaw args).2.1 h) (by decide)
    cases h : Law.bindsUniformly mergeSignature args with
    | none => exact absurd h hnone
    | some outcome =>
      cases outcome with
      | true => rfl
      | false => exact absurd h (hlaw args).1

end Mutability
