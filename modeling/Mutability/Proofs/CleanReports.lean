import Mutability.Proofs.CleanBodies

/-!
# A clean report is a typing derivation

A program whose class names differ is checked without a fault and without a diagnostic exactly if
it is well typed (`clean_report_iff_wellTyped`). A body starts with the member and the variables
that the judgement gives it, so that the members follow from the bodies. The two passes make a
circle that the proof has to open: bodies are checked against the tables of the first pass, and
that there are tables at all without a diagnostic is part of being well typed.
-/

namespace Mutability

open Typing

namespace Checker

variable {cfg : Configuration} {p : Program} {tables : Tables}

/-! ## Where a body starts -/

section

variable {P : Diagnostic → Prop} {π : Policy} {method : String} {index : Nat}
  {ps : List ParamDecl} {rs : List ResolvedParam}

theorem variablesOf_foldl_insert (h : ParamsDeclaredAs P π method index ps rs)
    (vars : OrderedMap String Var) :
    variablesOf ((rs.map fun r => (r.name, Var.mk r.declared.position r.declared.qualifier)).foldl
        (fun m e => m.insert e.1 e.2) vars) =
      (variablesOf vars).bind ps (rs.map fun r => r.declared.qualifier) := by
  induction h generalizing vars with
  | nil => rfl
  | cons hd _ ih =>
    rw [List.map_cons, List.foldl_cons, ih, variablesOf_insert, variable_of_declaredAs hd]
    rfl

/-- The variables before a body are the parameters of the member. -/
theorem variablesOf_bindParams (h : ParamsDeclaredAs P π method index ps rs) :
    variablesOf (bindParams rs) = Vars.empty.bind ps (rs.map fun r => r.declared.qualifier) :=
  variablesOf_foldl_insert h ∅

end

theorem keepsAnnotation_bindParams {rs : List ResolvedParam} {x : String} {v : Var}
    (hv : (bindParams rs).get? x = some v) : KeepsAnnotation v :=
  get?_bindParams (fun r _ => keepsAnnotation_declared r.declared) hv

/-! ## Members -/

theorem checkConstructor_iff (hrep : Represents cfg p tables) {c : ClassDecl}
    (hc : c ∈ p.classes) {i : Nat} {k : ConstructorDecl} (hk : c.constructors[i]? = some k) :
    (∃ summary, Within noDiagnostic
        (checkConstructor ⟨.ofConfiguration cfg, tables⟩ c i k) summary) ↔
      ConstructorTyped cfg p c k := by
  obtain ⟨table, htable, hdecl⟩ := hrep.complete hc
  obtain ⟨r, hr, hkr⟩ := getElem?_of_forall₂ hdecl.constructors hk
  have hbody : (∃ s', Within noDiagnostic
        (checkBody ⟨.ofConfiguration cfg, tables⟩ (constructorScope c i r) k.body) s') ↔
      BodyTyped cfg p ⟨c.name, some r.ret, true, none⟩
        (Vars.empty.bind k.params (r.params.map fun r => r.declared.qualifier)) k.body := by
    rw [checkBody_iff hrep fun x v => keepsAnnotation_bindParams,
      ← variablesOf_bindParams hkr.params]
    exact Iff.rfl
  constructor
  · rintro ⟨summary, h⟩
    obtain ⟨table', r', s', htable', hr', hdiag, hrun, -⟩ := within_checkConstructor.1 h
    obtain rfl : table = table' := Option.some.inj (htable.symm.trans htable')
    obtain rfl : r = r' := Option.some.inj (hr.symm.trans hr')
    obtain ⟨hret, hparams⟩ :=
      Construction.declarationDiagnostics_eq_nil.1 (forall_noDiagnostic.1 hdiag)
    exact ⟨r.ret, _, declaresConstructor_iff.2 ⟨r, hkr, rfl, rfl⟩, hret, hparams,
      hbody.1 ⟨s', hrun⟩⟩
  · rintro ⟨ret, params, hcons, hret, hparams, htyped⟩
    obtain ⟨r', hkr', rfl, rfl⟩ := declaresConstructor_iff.1 hcons
    obtain rfl := hkr.unique hkr'
    obtain ⟨s', hrun⟩ := hbody.2 htyped
    exact ⟨_, within_checkConstructor.2 ⟨table, r, s', htable, hr, forall_noDiagnostic.2
      (Construction.declarationDiagnostics_eq_nil.2 ⟨hret, hparams⟩), hrun, rfl⟩⟩

theorem checkMethod_iff (hrep : Represents cfg p tables) {c : ClassDecl} (hc : c ∈ p.classes)
    {i : Nat} {m : MethodDecl} (hm : c.methods[i]? = some m) :
    Within noDiagnostic (checkMethod ⟨.ofConfiguration cfg, tables⟩ c i m) () ↔
      MethodTyped cfg p c m := by
  obtain ⟨table, htable, hdecl⟩ := hrep.complete hc
  obtain ⟨r, hr, hmr⟩ := getElem?_of_forall₂ hdecl.methods hm
  have hbody : (∃ s', Within noDiagnostic
        (checkBody ⟨.ofConfiguration cfg, tables⟩ (methodScope c m r) m.body) s') ↔
      BodyTyped cfg p ⟨c.name, r.signature.receiver, false,
        if m.returns.isSome then some r.signature.ret else none⟩
        (Vars.empty.bind m.params r.signature.params) m.body := by
    rw [checkBody_iff hrep fun x v => keepsAnnotation_bindParams, hmr.qualifiers,
      ← variablesOf_bindParams hmr.params, ← hmr.returns]
    exact Iff.rfl
  constructor
  · intro h
    obtain ⟨table', r', s', htable', hr', hrun⟩ := within_checkMethod.1 h
    obtain rfl : table = table' := Option.some.inj (htable.symm.trans htable')
    obtain rfl : r = r' := Option.some.inj (hr.symm.trans hr')
    exact ⟨r.signature, declaresMethod_iff.2 ⟨r, hmr, rfl⟩, hbody.1 ⟨s', hrun⟩⟩
  · rintro ⟨σ, hσ, htyped⟩
    obtain ⟨r', hmr', rfl⟩ := declaresMethod_iff.1 hσ
    obtain rfl := hmr.unique hmr'
    obtain ⟨s', hrun⟩ := hbody.2 htyped
    exact within_checkMethod.2 ⟨table, r, s', htable, hr, hrun⟩

theorem checkClass_iff (hrep : Represents cfg p tables) {c : ClassDecl} (hc : c ∈ p.classes) :
    Within noDiagnostic (checkClass ⟨.ofConfiguration cfg, tables⟩ c) () ↔
      (∀ k ∈ c.constructors, ConstructorTyped cfg p c k) ∧
        ∀ m ∈ c.methods, MethodTyped cfg p c m := by
  rw [within_checkClass]
  constructor
  · rintro ⟨hcons, hmeth⟩
    refine ⟨fun k hk => ?_, fun m hm => ?_⟩
    · obtain ⟨i, hi⟩ := List.getElem?_of_mem hk
      exact (checkConstructor_iff hrep hc hi).1 (hcons i k hi)
    · obtain ⟨i, hi⟩ := List.getElem?_of_mem hm
      exact (checkMethod_iff hrep hc hi).1 (hmeth i m hi)
  · rintro ⟨hcons, hmeth⟩
    exact ⟨fun i k hi => (checkConstructor_iff hrep hc hi).2 (hcons k (List.mem_of_getElem? hi)),
      fun i m hi => (checkMethod_iff hrep hc hi).2 (hmeth m (List.mem_of_getElem? hi))⟩

/-! ## Programs -/

theorem exists_classDeclaredAs (h : WellTyped cfg p) {c : ClassDecl} (hc : c ∈ p.classes) :
    ∃ table, ClassDeclaredAs noDiagnostic (.ofConfiguration cfg) c table := by
  have hfield : ∀ f ∈ c.fields, ∃ r, FieldDeclaredAs noDiagnostic (.ofConfiguration cfg) f r := by
    intro f hf
    obtain ⟨field, hfield⟩ := h.fields c hc f hf
    exact ⟨_, declaresField_iff.1 hfield⟩
  have hconstructor : ∀ k ∈ c.constructors,
      ∃ r, ConstructorDeclaredAs noDiagnostic (.ofConfiguration cfg) c k r := by
    intro k hk
    obtain ⟨ret, params, hcons, -⟩ := h.constructors c hc k hk
    obtain ⟨r, hr, -⟩ := declaresConstructor_iff.1 hcons
    exact ⟨r, hr⟩
  have hmethod : ∀ m ∈ c.methods,
      ∃ r, MethodDeclaredAs noDiagnostic (.ofConfiguration cfg) c m r := by
    intro m hm
    obtain ⟨σ, hσ, -⟩ := h.methods c hc m hm
    obtain ⟨r, hr, -⟩ := declaresMethod_iff.1 hσ
    exact ⟨r, hr⟩
  obtain ⟨fields, hfields⟩ := exists_forall₂ hfield
  obtain ⟨constructors, hconstructors⟩ := exists_forall₂ hconstructor
  obtain ⟨methods, hmethods⟩ := exists_forall₂ hmethod
  exact ⟨⟨_, constructors, methods⟩, ⟨fields, hfields, rfl⟩, hconstructors, hmethods⟩

theorem fields_of_represents (hrep : Represents cfg p tables) {c : ClassDecl}
    (hc : c ∈ p.classes) {f : FieldDecl} (hf : f ∈ c.fields) :
    ∃ field, DeclaresField cfg f field := by
  obtain ⟨table, -, hdecl⟩ := hrep.complete hc
  obtain ⟨rs, hrs, -⟩ := hdecl.fields
  obtain ⟨i, hi⟩ := List.getElem?_of_mem hf
  obtain ⟨⟨field, host⟩, -, hr⟩ := getElem?_of_forall₂ hrs hi
  obtain rfl : host = f.host := hr.host_eq
  exact ⟨field, declaresField_iff.2 hr⟩

end Checker

open Checker

theorem diagnostics_eq_nil_iff {r : Report} :
    r.diagnostics = [] ↔ ∀ x ∈ r.diagnostics, noDiagnostic x.diagnostic :=
  List.eq_nil_iff_forall_not_mem

theorem exists_clean_report_iff {π : Policy} {p : Program} :
    (∃ r, p.check π = .ok r ∧ r.diagnostics = []) ↔
      (p.check π).map Report.diagnostics = .ok [] := by
  cases p.check π with
  | error f => simp [Except.map]
  | ok r => simp [Except.map]

/-- With class names that differ, a program is checked without a fault and without a diagnostic
exactly if it is well typed. -/
theorem clean_report_iff_wellTyped (cfg : Configuration) (p : Program)
    (hn : (p.classes.map ClassDecl.name).Nodup) :
    (∃ r, p.check (.ofConfiguration cfg) = .ok r ∧ r.diagnostics = []) ↔ WellTyped cfg p := by
  simp only [diagnostics_eq_nil_iff]
  rw [Program.check_within]
  constructor
  · rintro ⟨tables, htables, hclasses⟩
    have hrep := Represents.of_within htables hn
    exact ⟨fun c hc f hf => fields_of_represents hrep hc hf,
      fun c hc => ((checkClass_iff hrep hc).1 (hclasses c hc)).1,
      fun c hc => ((checkClass_iff hrep hc).1 (hclasses c hc)).2⟩
  · intro h
    obtain ⟨tables, htables⟩ := exists_tables ∅ fun c hc => exists_classDeclaredAs h hc
    have hrep := Represents.of_within htables hn
    exact ⟨tables, htables, fun c hc =>
      (checkClass_iff hrep hc).2 ⟨h.constructors c hc, h.methods c hc⟩⟩

/-- A counter, and a method that makes one, takes one with the annotation `text` in its place
through a polymorphic static method, and then adds to it. -/
def counterProgram (text : String) : Program where
  classes := [
    { name := "Driver", fields := [], constructors := [], methods := [
      { name := "run", isStatic := true, receiverText := none
        params := [⟨"c", .declared "Counter", some text⟩]
        returns := some (.declared "Counter"), returnText := some "@Readonly"
        body := [
          .localVar "d" (.declared "Counter") none
            (some (.create "Counter" none [.literal (.primitive .int)])),
          .assign "d" (.staticCall "Counter" "same" [.var "c"]),
          .eval (.call (.var "d") "add" [.literal (.primitive .int)]),
          .exit (some (.cast (.declared "Counter") none (.fieldRead (.var "d") "owner")))] }] },
    { name := "Counter"
      fields := [⟨"count", .primitive .int, none, false, false, false⟩,
        ⟨"owner", .declared "Counter", some "@Readonly", false, true, false⟩]
      constructors := [⟨some "@Mutable", [⟨"start", .primitive .int, none⟩],
        [.fieldWrite .self "count" (.var "start"), .fieldWrite .self "owner" .self]⟩]
      methods := [
        { name := "add", isStatic := false, receiverText := some "@Mutable"
          params := [⟨"step", .primitive .int, none⟩], returns := none, returnText := none
          body := [.fieldWrite .self "count"
            (.binary (.primitive .int) (.fieldRead .self "count") (.var "step"))] },
        { name := "same", isStatic := true, receiverText := none
          params := [⟨"c", .declared "Counter", some "@PolyMutable"⟩]
          returns := some (.declared "Counter"), returnText := some "@PolyMutable"
          body := [.exit (some (.var "c"))] }] }]

/-- The counter may be added to if it is `mutable`, and not if it is `readonly`. -/
theorem wellTyped_counterProgram :
    ((counterProgram "@Mutable").classes.map ClassDecl.name).Nodup ∧
      WellTyped .standard (counterProgram "@Mutable") ∧
      ¬ WellTyped .standard (counterProgram "@Readonly") := by
  refine ⟨by decide, ?_, fun h => ?_⟩
  · refine (clean_report_iff_wellTyped .standard _ (by decide)).1 (exists_clean_report_iff.2 ?_)
    decide +kernel
  · have hclean := exists_clean_report_iff.1
      ((clean_report_iff_wellTyped .standard _ (by decide)).2 h)
    revert hclean
    decide +kernel

end Mutability
