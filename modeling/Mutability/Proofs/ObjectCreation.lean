import Mutability.Proofs.CleanBodies

/-!
# The creation of objects

A constructor is called as its declaration says, never for a `readonly` object, and with arguments
that fit its parameters as the new object sees them. What is reported of a call is found by going
through its arguments once; here it is said which arguments those are (`mem_misfits`), in which
order they come (`pairwise_misfits`), and that the place of an argument can be read off the text
that is reported of it (`Diagnostic.index_of_argument`). So `object_creation_decided` says what is
reported of any call, and that smaller arguments are reported at fewer places.

The declaration of an `immutable` constructor and the calls of it are judged apart. Only together do
they keep everything from its object that could still be changed from outside: such an argument is
taken for a `readonly` parameter and for no other (`no_mutable_capture`).
-/

namespace Mutability

/-! ## The place of an argument -/

theorem takeWhile_isDigit_repr (n : Nat) {c : Char} (hc : c.isDigit = false) (rest : List Char) :
    (n.repr.toList ++ c :: rest).takeWhile Char.isDigit = Nat.toDigits 10 n := by
  have hdigits : ∀ d ∈ Nat.toDigits 10 n, d.isDigit = true :=
    fun d hd => Nat.isDigit_of_mem_toDigits (by decide) (by decide) hd
  rw [Nat.toList_repr, List.takeWhile_append_of_pos hdigits,
    List.takeWhile_cons_of_neg (by simp [hc]), List.append_nil]

/-- Two arguments of which the same is reported stand at the same place. -/
theorem Diagnostic.index_of_argument {i j : Nat} {found required found' required' : Qualifier}
    (h : argument i found required = argument j found' required') : i = j := by
  -- Behind the digits of the place there is a colon.
  have htext : ∀ (n : Nat) (a q : Qualifier), ∃ rest, (argument n a q).message.toList =
      "argument ".toList ++ (n.repr.toList ++ ':' :: rest) := by
    intro n a q
    refine ⟨(" found " ++ a.annotationName ++ ", required " ++ q.annotationName).toList, ?_⟩
    simp [argument]
  obtain ⟨rest, hi⟩ := htext i found required
  obtain ⟨rest', hj⟩ := htext j found' required'
  rw [h, hj, List.append_cancel_left_eq] at hi
  have hdigits := congrArg (List.takeWhile Char.isDigit) hi
  rw [takeWhile_isDigit_repr i rfl, takeWhile_isDigit_repr j rfl] at hdigits
  calc
    i = Nat.ofDigitChars 10 (Nat.toDigits 10 i) 0 := Nat.ofDigitChars_ten_toDigits.symm
    _ = Nat.ofDigitChars 10 (Nat.toDigits 10 j) 0 := by rw [hdigits]
    _ = j := Nat.ofDigitChars_ten_toDigits

namespace Construction

/-! ## Arguments that do not fit -/

/-- An argument that does not fit: its place, and what is required there. -/
structure Misfit where
  index : Nat
  found : Qualifier
  required : Qualifier
deriving DecidableEq, Repr

/-- What is reported of the argument. -/
def Misfit.diagnostic (m : Misfit) : Diagnostic :=
  .argument m.index m.found m.required

/-- The arguments, numbered from `index` on, that do not fit the parameters as `adapted`. -/
def misfits (adapted : Qualifier → Qualifier) (index : Nat) (args params : List Qualifier) :
    List Misfit :=
  (((args.zip params).zipIdx index).map fun x => ⟨x.2, x.1.1, adapted x.1.2⟩).filter
    fun m => ¬ m.found ≤ m.required

variable {adapted : Qualifier → Qualifier} {args params : List Qualifier}

theorem argumentDiagnostics_eq_map (adapted : Qualifier → Qualifier) (index : Nat)
    (args params : List Qualifier) :
    argumentDiagnostics adapted index args params =
      (misfits adapted index args params).map Misfit.diagnostic := by
  induction args generalizing index params with
  | nil => rfl
  | cons a args ih =>
    cases params with
    | nil => rfl
    | cons p params =>
      unfold argumentDiagnostics
      rw [ih]
      by_cases hfit : a ≤ adapted p
      · simp [misfits, hfit]
      · simp [misfits, hfit, Misfit.diagnostic]

theorem mem_misfits {m : Misfit} :
    m ∈ misfits adapted 0 args params ↔ ∃ p, args[m.index]? = some m.found ∧
      params[m.index]? = some p ∧ m.required = adapted p ∧ ¬ m.found ≤ m.required := by
  unfold misfits
  simp only [List.mem_filter, List.mem_map, List.mem_zipIdx_iff_getElem?,
    List.getElem?_zip_eq_some, decide_eq_true_eq]
  constructor
  · rintro ⟨⟨⟨⟨a, p⟩, i⟩, ⟨ha, hp⟩, rfl⟩, hfit⟩
    exact ⟨p, ha, hp, rfl, hfit⟩
  · obtain ⟨i, a, q⟩ := m
    rintro ⟨p, ha, hp, rfl, hfit⟩
    exact ⟨⟨((a, p), i), ⟨ha, hp⟩, rfl⟩, hfit⟩

theorem pairwise_misfits (adapted : Qualifier → Qualifier) (index : Nat)
    (args params : List Qualifier) :
    (misfits adapted index args params).Pairwise fun m n => m.index < n.index := by
  refine List.Pairwise.filter _ (List.pairwise_map.2 ?_)
  have hplaces : (((args.zip params).zipIdx index).map Prod.snd).Pairwise (· < ·) := by
    rw [List.zipIdx_map_snd]
    exact List.pairwise_lt_range'
  exact List.pairwise_map.1 hplaces

/-- Every argument for which there is a parameter fits it. -/
def Fits (adapted : Qualifier → Qualifier) (args params : List Qualifier) : Prop :=
  ∀ (i : Nat) (a p : Qualifier), args[i]? = some a → params[i]? = some p → a ≤ adapted p

theorem argumentDiagnostics_eq_nil_iff_fits :
    argumentDiagnostics adapted 0 args params = [] ↔ Fits adapted args params := by
  rw [argumentDiagnostics_eq_map, List.map_eq_nil_iff, List.eq_nil_iff_forall_not_mem]
  constructor
  · intro hnone i a p ha hp
    by_contra hfit
    exact hnone ⟨i, a, adapted p⟩ (mem_misfits.2 ⟨p, ha, hp, rfl, hfit⟩)
  · intro hfits m hm
    obtain ⟨p, ha, hp, hq, hfit⟩ := mem_misfits.1 hm
    rw [hq] at hfit
    exact hfit (hfits _ _ p ha hp)

/-! ## Calls of a constructor -/

/-- Something is reported of the argument at the place `i`. -/
def Diagnosed (ds : List Diagnostic) (i : Nat) : Prop :=
  ∃ found required, Diagnostic.argument i found required ∈ ds

variable {declared : Qualifier} {requested : Option Qualifier}

theorem mem_arguments_of_mem_invocation {i : Nat} {a q : Qualifier}
    (h : .argument i a q ∈ invocationDiagnostics declared requested args params) :
    .argument i a q ∈ argumentDiagnostics
      (Viewpoint.adaptInvocation (requested.getD declared)) 0 args params := by
  rcases List.mem_append.1 h with h | h
  · -- The two findings about the object are of other kinds.
    rcases List.mem_append.1 h with h | h
    all_goals
      split at h
      · cases congrArg Diagnostic.kind (List.mem_singleton.1 h)
      · cases h
  · exact h

theorem diagnosed_iff {i : Nat} :
    Diagnosed (invocationDiagnostics declared requested args params) i ↔
      ∃ a p, args[i]? = some a ∧ params[i]? = some p ∧
        ¬ a ≤ Viewpoint.adaptInvocation (requested.getD declared) p := by
  constructor
  · rintro ⟨found, required, h⟩
    have hmem := mem_arguments_of_mem_invocation h
    rw [argumentDiagnostics_eq_map] at hmem
    obtain ⟨m, hm, hsame⟩ := List.mem_map.1 hmem
    obtain rfl : m.index = i := Diagnostic.index_of_argument hsame
    obtain ⟨p, ha, hp, hq, hfit⟩ := mem_misfits.1 hm
    exact ⟨m.found, p, ha, hp, hq ▸ hfit⟩
  · rintro ⟨a, p, ha, hp, hfit⟩
    let m : Misfit := ⟨i, a, Viewpoint.adaptInvocation (requested.getD declared) p⟩
    have hm : m.diagnostic ∈ argumentDiagnostics
        (Viewpoint.adaptInvocation (requested.getD declared)) 0 args params := by
      rw [argumentDiagnostics_eq_map]
      exact List.mem_map_of_mem (mem_misfits.2 ⟨p, ha, hp, rfl, hfit⟩)
    exact ⟨m.found, m.required, List.mem_append_right _ hm⟩

theorem fits_iff_not_diagnosed :
    Fits (Viewpoint.adaptInvocation (requested.getD declared)) args params ↔
      ∀ i, ¬ Diagnosed (invocationDiagnostics declared requested args params) i := by
  simp only [diagnosed_iff]
  constructor
  · rintro hfits i ⟨a, p, ha, hp, hfit⟩
    exact hfit (hfits i a p ha hp)
  · intro hnone i a p ha hp
    by_contra hfit
    exact hnone i ⟨a, p, ha, hp, hfit⟩

/-- With smaller arguments nothing is reported at a place where nothing was reported. -/
theorem Diagnosed.of_le {args' : List Qualifier} {i : Nat}
    (h : List.Forall₂ (· ≤ ·) args' args)
    (hi : Diagnosed (invocationDiagnostics declared requested args' params) i) :
    Diagnosed (invocationDiagnostics declared requested args params) i := by
  obtain ⟨a', p, ha', hp, hfit⟩ := diagnosed_iff.1 hi
  obtain ⟨a, ha, hle⟩ := getElem?_of_forall₂ h ha'
  exact diagnosed_iff.2 ⟨a, p, ha, hp, fun hle' => hfit (Qualifier.le_trans hle hle')⟩

theorem invocationDiagnostics_eq_nil_of_le {args' : List Qualifier}
    (h : List.Forall₂ (· ≤ ·) args' args)
    (hnil : invocationDiagnostics declared requested args params = []) :
    invocationDiagnostics declared requested args' params = [] := by
  rw [invocationDiagnostics_eq_nil_iff, argumentDiagnostics_eq_nil_iff_fits,
    fits_iff_not_diagnosed] at hnil ⊢
  obtain ⟨heq, hne, hnone⟩ := hnil
  exact ⟨heq, hne, fun i hi => hnone i (hi.of_le h)⟩

end Construction

open Construction

/-- A call of a constructor is accepted exactly if it is for an object as the constructor declares,
this is not `readonly`, and the arguments fit as far as there are parameters. Otherwise it is
reported that the object is `readonly`, that the constructor does not give such an object, and which
arguments do not fit, from the first to the last. With smaller arguments no other places are
reported, and what is accepted stays accepted. -/
theorem object_creation_decided (declared : Qualifier) (requested : Option Qualifier)
    (args params : List Qualifier) :
    let object := requested.getD declared
    let ds := invocationDiagnostics declared requested args params
    (ds = [] ↔ object = declared ∧ object ≠ .readonly ∧
      ∀ (i : Nat) (a p : Qualifier), args[i]? = some a → params[i]? = some p →
        a ≤ Viewpoint.adaptInvocation object p) ∧
    (∃ failing : List Misfit,
      ds = (if object = .readonly then
          [⟨.readonlyObjectCreation, "an object cannot be created as @Readonly"⟩] else []) ++
        (if object = .readonly ∨ object ≠ declared then
          [.incompatible .constructorInvocationInvalid object declared] else []) ++
        failing.map Misfit.diagnostic ∧
      (failing.Pairwise fun m n => m.index < n.index) ∧
      ∀ m, m ∈ failing ↔ ∃ p, args[m.index]? = some m.found ∧ params[m.index]? = some p ∧
        m.required = Viewpoint.adaptInvocation object p ∧ ¬ m.found ≤ m.required) ∧
    ∀ args', List.Forall₂ (· ≤ ·) args' args →
      (∀ i, Diagnosed (invocationDiagnostics declared requested args' params) i →
        Diagnosed ds i) ∧
      (ds = [] → invocationDiagnostics declared requested args' params = []) := by
  intro object ds
  refine ⟨?_, ⟨misfits (Viewpoint.adaptInvocation object) 0 args params, ?_,
    pairwise_misfits _ 0 args params, fun m => mem_misfits⟩, fun args' h => ⟨?_, ?_⟩⟩
  · show invocationDiagnostics declared requested args params = [] ↔ _
    rw [invocationDiagnostics_eq_nil_iff, argumentDiagnostics_eq_nil_iff_fits]
    rfl
  · rw [← argumentDiagnostics_eq_map]
    rfl
  · intro i hi
    exact hi.of_le h
  · exact invocationDiagnostics_eq_nil_of_le h

/-- Of a `readonly` object with two arguments that do not fit, four things are reported. With a
smaller argument in the place of the first one, three of them are left. -/
theorem object_creation_decided_readonly :
    let params := [.immutable, .receiverDependant, .polyMutable, .mutable]
    let args := [.mutable, .immutable, .readonly, .readonly, .readonly]
    let args' := [.bottom, .immutable, .readonly, .readonly, .mutable]
    let ds := invocationDiagnostics .mutable (some .readonly) args params
    let ds' := invocationDiagnostics .mutable (some .readonly) args' params
    ds = [⟨.readonlyObjectCreation, "an object cannot be created as @Readonly"⟩,
      ⟨.constructorInvocationInvalid, "found @Readonly, required @Mutable"⟩,
      ⟨.argumentTypeIncompatible, "argument 0: found @Mutable, required @Immutable"⟩,
      ⟨.argumentTypeIncompatible, "argument 3: found @Readonly, required @Mutable"⟩] ∧
    List.Forall₂ (· ≤ ·) args' args ∧ Diagnosed ds' 3 ∧ ¬ Diagnosed ds' 0 ∧
    ∀ i, Diagnosed ds' i → Diagnosed ds i := by
  intro params args args' ds ds'
  have hle : List.Forall₂ (· ≤ ·) args' args := by
    simp only [args, args', List.forall₂_cons]
    exact ⟨by decide, by decide, by decide, by decide, by decide, .nil⟩
  obtain ⟨-, -, hmono⟩ := object_creation_decided .mutable (some .readonly) args params
  refine ⟨by decide, hle, ⟨.readonly, .mutable, by decide⟩, fun h => ?_, (hmono args' hle).1⟩
  obtain ⟨a, p, ha, -, hfit⟩ := diagnosed_iff.1 h
  obtain rfl := Option.some.inj ha
  exact hfit (Qualifier.bottom_le _)

/-! ## Constructors of immutable objects -/

/-- What an `immutable` object takes for a parameter that is not `mutable`. -/
theorem le_adaptInvocation_immutable_iff {a p : Qualifier} (hp : p ≠ .mutable) :
    a ≤ Viewpoint.adaptInvocation .immutable p ↔
      p = .readonly ∨ a ≤ .immutable ∧ (p = .substitutable ∨ p = .bottom → a ≤ p) := by
  revert hp
  cases p <;> cases a <;> decide

theorem accepted_by_immutable_iff {requested : Option Qualifier} {args params : List Qualifier} :
    declarationDiagnostics .immutable params = [] ∧
        invocationDiagnostics .immutable requested args params = [] ↔
      .mutable ∉ params ∧ requested.getD .immutable = .immutable ∧
        ∀ (i : Nat) (a p : Qualifier), args[i]? = some a → params[i]? = some p →
          p = .readonly ∨ a ≤ .immutable ∧ (p = .substitutable ∨ p = .bottom → a ≤ p) := by
  have hdeclared : declarationDiagnostics .immutable params = [] ↔ .mutable ∉ params := by
    rw [declarationDiagnostics_eq_nil]
    exact ⟨fun h => h.2 rfl, fun h => ⟨by decide, fun _ => h⟩⟩
  rw [hdeclared, invocationDiagnostics_eq_nil_iff, argumentDiagnostics_eq_nil_iff_fits]
  refine and_congr_right fun hnone => and_congr_right fun hobject => ?_
  rw [hobject]
  have hfits : ∀ (i : Nat) (a p : Qualifier), params[i]? = some p →
      (a ≤ Viewpoint.adaptInvocation .immutable p ↔
        p = .readonly ∨ a ≤ .immutable ∧ (p = .substitutable ∨ p = .bottom → a ≤ p)) := by
    intro i a p hp
    refine le_adaptInvocation_immutable_iff ?_
    rintro rfl
    exact hnone (List.mem_of_getElem? hp)
  constructor
  · intro h i a p ha hp
    exact (hfits i a p hp).1 (h.2 i a p ha hp)
  · intro h
    exact ⟨by decide, fun i a p ha hp => (hfits i a p hp).2 (h i a p ha hp)⟩

/-- Nothing is wrong with the declaration of a constructor of `immutable` objects and with a call of
it exactly if no parameter is `mutable`, the object is to be `immutable`, and each argument for a
parameter that is not `readonly` is below `immutable` (and below the parameter, where that is itself
smaller). So an argument through which its object could still be changed is passed for a `readonly`
parameter only. -/
theorem no_mutable_capture (requested : Option Qualifier) (args params : List Qualifier) :
    (declarationDiagnostics .immutable params = [] ∧
        invocationDiagnostics .immutable requested args params = [] ↔
      .mutable ∉ params ∧ requested.getD .immutable = .immutable ∧
        ∀ (i : Nat) (a p : Qualifier), args[i]? = some a → params[i]? = some p →
          p = .readonly ∨ a ≤ .immutable ∧ (p = .substitutable ∨ p = .bottom → a ≤ p)) ∧
    (declarationDiagnostics .immutable params = [] →
      invocationDiagnostics .immutable requested args params = [] →
      ∀ (i : Nat) (a p : Qualifier), args[i]? = some a → params[i]? = some p →
        (a ≤ .immutable ∨ p = .readonly) ∧
          (a = .mutable ∨ a = .polyMutable ∨ a = .receiverDependant → p = .readonly)) := by
  refine ⟨accepted_by_immutable_iff, fun hdeclaration hinvocation i a p ha hp => ?_⟩
  obtain ⟨-, -, hargs⟩ := accepted_by_immutable_iff.1 ⟨hdeclaration, hinvocation⟩
  have hcapture : a ≤ .immutable ∨ p = .readonly := by
    rcases hargs i a p ha hp with hreadonly | ⟨himmutable, -⟩
    · exact Or.inr hreadonly
    · exact Or.inl himmutable
  refine ⟨hcapture, fun hmutable => hcapture.resolve_left ?_⟩
  rcases hmutable with rfl | rfl | rfl <;> decide

/-- The call passes a `mutable` argument for a `readonly` parameter. For a `mutable` parameter the
call alone would take it, and for a polymorphic one the declaration alone would. -/
theorem no_mutable_capture_readonly :
    let params := [.readonly, .polyMutable, .receiverDependant]
    let args := [.mutable, .immutable, .bottom, .mutable]
    declarationDiagnostics .immutable params = [] ∧
    invocationDiagnostics .immutable (some .immutable) args params = [] ∧
    (∀ (i : Nat) (a p : Qualifier), args[i]? = some a → params[i]? = some p →
      a ≤ .immutable ∨ p = .readonly) ∧
    (declarationDiagnostics .immutable [.mutable] ≠ [] ∧
      invocationDiagnostics .immutable none [.mutable] [.mutable] = []) ∧
    declarationDiagnostics .immutable [.polyMutable] = [] ∧
      invocationDiagnostics .immutable none [.mutable] [.polyMutable] ≠ [] := by
  intro params args
  have hdeclaration : declarationDiagnostics .immutable params = [] := by decide
  have hinvocation : invocationDiagnostics .immutable (some .immutable) args params = [] := by
    decide
  obtain ⟨-, hcapture⟩ := no_mutable_capture (some .immutable) args params
  refine ⟨hdeclaration, hinvocation, fun i a p ha hp => ?_, ⟨by decide, by decide⟩, by decide,
    by decide⟩
  exact (hcapture hdeclaration hinvocation i a p ha hp).1

end Mutability
