import Mutability.Proofs.Annotation
import Mutability.Proofs.BodyRuns
import Mutability.Proofs.Typing

/-!
# Tables and declarations

The checker looks members up in tables, the typing judgement in the declarations. Where the first
pass reports nothing, the two find the same: what a table holds about a member is what the judgement
says about its declaration (`declaresField_iff`, `declaresConstructor_iff`, `declaresMethod_iff`),
and the tables of a program whose class names differ represent the program (`Represents`).
-/

namespace Mutability

namespace Checker

/-- Nothing may be reported. -/
def noDiagnostic (_ : Diagnostic) : Prop := False

theorem forall_noDiagnostic {ds : List Diagnostic} : (∀ x ∈ ds, noDiagnostic x) ↔ ds = [] := by
  rw [List.eq_nil_iff_forall_not_mem]
  exact Iff.rfl

theorem forall_noDiagnostic_option {d : Option Diagnostic} :
    (∀ x ∈ d, noDiagnostic x) ↔ d = none := by
  rw [Option.eq_none_iff_forall_not_mem]
  exact Iff.rfl

/-! ## One declaration has one outcome -/

section

variable {P : Diagnostic → Prop} {π : Policy}

theorem FieldDeclaredAs.unique {f : FieldDecl} {r r' : ResolvedField}
    (h : FieldDeclaredAs P π f r) (h' : FieldDeclaredAs P π f r') : r = r' :=
  (within_resolveField (c := default).2 h).unique (within_resolveField.2 h')

theorem ConstructorDeclaredAs.unique {c : ClassDecl} {k : ConstructorDecl}
    {r r' : ResolvedConstructor} (h : ConstructorDeclaredAs P π c k r)
    (h' : ConstructorDeclaredAs P π c k r') : r = r' :=
  have hr : Within P (resolveConstructor π c 0 k) r := within_resolveConstructor.2 h
  hr.unique (within_resolveConstructor.2 h')

theorem MethodDeclaredAs.unique {c : ClassDecl} {m : MethodDecl} {r r' : ResolvedMethod}
    (h : MethodDeclaredAs P π c m r) (h' : MethodDeclaredAs P π c m r') : r = r' :=
  (within_resolveMethod.2 h).unique (within_resolveMethod.2 h')

/-! ## The position of a declaration -/

theorem DeclaredAs.host_eq {kind : Position.Kind} {host : HostType} {text : Option String}
    {d : Declared} (h : DeclaredAs P π kind host text d) : d.position.host = host := by
  obtain ⟨w, -, -, -, hpos⟩ := h
  rw [hpos, π.annotate_host]
  rfl

theorem isSome_of_resolve? {text : Option String} {w : Option Qualifier}
    (h : π.resolve? text = .ok w) : w.isSome = text.isSome := by
  cases text with
  | none => cases h; rfl
  | some t =>
    have h' : (π.resolve t).map some = .ok w := h
    cases hr : π.resolve t with
    | error f => rw [hr] at h'; cases h'
    | ok q => rw [hr] at h'; cases h'; rfl

/-- A declaration is explicit exactly if an annotation is written on it. -/
theorem DeclaredAs.isExplicit_eq {kind : Position.Kind} {host : HostType} {text : Option String}
    {d : Declared} (h : DeclaredAs P π kind host text d) : d.position.isExplicit = text.isSome := by
  obtain ⟨w, hw, -, -, hpos⟩ := h
  rw [hpos, π.annotate_isExplicit, Position.written_isExplicit, isSome_of_resolve? hw]

end

end Checker

namespace Typing

open Checker

variable {cfg : Configuration}

/-! ## Tables hold what the judgement declares -/

theorem legal_iff {kind : Position.Kind} {host : HostType} {text : Option String}
    {written : Option Qualifier} :
    Legal cfg kind host text written ↔
      (Policy.ofConfiguration cfg).resolve? text = .ok written ∧
        ∀ x ∈ (Policy.ofConfiguration cfg).illegality? (.written kind host written),
          noDiagnostic x := by
  rw [forall_noDiagnostic_option]
  exact ⟨fun h => ⟨h.resolves, h.permitted⟩, fun h => ⟨h.1, h.2⟩⟩

theorem declares_iff {kind : Position.Kind} {host : HostType} {text : Option String}
    {q : Qualifier} :
    Declares cfg kind host text q ↔
      ∃ d, DeclaredAs noDiagnostic (.ofConfiguration cfg) kind host text d ∧ q = d.qualifier := by
  constructor
  · rintro ⟨w, hlegal, hq⟩
    obtain ⟨hw, hnone⟩ := legal_iff.1 hlegal
    exact ⟨⟨_, q, Policy.qualifierOf_eq_ok.1 hq⟩, ⟨w, hw, hnone, hq, rfl⟩, rfl⟩
  · rintro ⟨d, ⟨w, hw, hnone, hq, -⟩, rfl⟩
    exact ⟨w, legal_iff.2 ⟨hw, hnone⟩, hq⟩

theorem declaresParams_iff {method : String} {index : Nat} {ps : List ParamDecl}
    {qs : List Qualifier} :
    DeclaresParams cfg method index ps qs ↔
      ∃ rs, ParamsDeclaredAs noDiagnostic (.ofConfiguration cfg) method index ps rs ∧
        qs = rs.map fun p => p.declared.qualifier := by
  constructor
  · intro h
    induction h with
    | nil => exact ⟨[], .nil, rfl⟩
    | cons hq _ ih =>
      obtain ⟨d, hd, rfl⟩ := declares_iff.1 hq
      obtain ⟨rs, hrs, rfl⟩ := ih
      exact ⟨_, .cons hd hrs, rfl⟩
  · rintro ⟨rs, hrs, rfl⟩
    induction hrs with
    | nil => exact .nil
    | cons hd _ ih => exact .cons (declares_iff.2 ⟨_, hd, rfl⟩) ih

theorem declaresField_iff {f : FieldDecl} {field : Field} :
    DeclaresField cfg f field ↔
      FieldDeclaredAs noDiagnostic (.ofConfiguration cfg) f ⟨field, f.host⟩ := by
  constructor
  · rintro ⟨q, hq, rfl⟩
    obtain ⟨d, hd, rfl⟩ := declares_iff.1 hq
    exact ⟨d, hd, rfl⟩
  · rintro ⟨d, hd, hfield⟩
    exact ⟨d.qualifier, declares_iff.2 ⟨d, hd, rfl⟩, (ResolvedField.mk.inj hfield).1⟩

theorem declaresConstructor_iff {c : ClassDecl} {k : ConstructorDecl} {ret : Qualifier}
    {params : List Qualifier} :
    DeclaresConstructor cfg c k ret params ↔
      ∃ r, ConstructorDeclaredAs noDiagnostic (.ofConfiguration cfg) c k r ∧ ret = r.ret ∧
        params = r.params.map fun p => p.declared.qualifier := by
  constructor
  · rintro ⟨hret, hparams⟩
    obtain ⟨d, hd, rfl⟩ := declares_iff.1 hret
    obtain ⟨rs, hrs, rfl⟩ := declaresParams_iff.1 hparams
    exact ⟨⟨d.qualifier, rs⟩, ⟨⟨d, hd, rfl⟩, hrs⟩, rfl, rfl⟩
  · rintro ⟨r, ⟨⟨d, hd, hret⟩, hrs⟩, rfl, rfl⟩
    exact ⟨declares_iff.2 ⟨d, hd, hret⟩, declaresParams_iff.2 ⟨_, hrs, rfl⟩⟩

theorem declaresReceiver_iff {c : ClassDecl} {m : MethodDecl} {receiver : Option Qualifier} :
    DeclaresReceiver cfg c m receiver ↔
      ReceiverDeclaredAs noDiagnostic (.ofConfiguration cfg) c m receiver := by
  cases receiver with
  | none => exact Iff.rfl
  | some q => exact and_congr_right fun _ => declares_iff

theorem declaresReturn_iff {m : MethodDecl} {q : Qualifier} :
    DeclaresReturn cfg m q ↔ ReturnDeclaredAs noDiagnostic (.ofConfiguration cfg) m q := by
  unfold DeclaresReturn ReturnDeclaredAs
  cases m.returns with
  | none => exact Iff.rfl
  | some host => exact declares_iff

theorem declaresMethod_iff {c : ClassDecl} {m : MethodDecl} {σ : Signature} :
    DeclaresMethod cfg c m σ ↔
      ∃ r, MethodDeclaredAs noDiagnostic (.ofConfiguration cfg) c m r ∧ σ = r.signature := by
  constructor
  · intro h
    obtain ⟨rs, hrs, hqs⟩ := declaresParams_iff.1 h.params
    exact ⟨⟨σ, rs, m.returns⟩, ⟨h.name, h.isStatic, declaresReceiver_iff.1 h.receiver, hrs, hqs,
      declaresReturn_iff.1 h.ret, rfl⟩, rfl⟩
  · rintro ⟨r, h, rfl⟩
    exact ⟨h.name, h.isStatic, declaresReceiver_iff.2 h.receiver,
      declaresParams_iff.2 ⟨_, h.params, h.qualifiers⟩, declaresReturn_iff.2 h.ret⟩

/-! ## Tables that represent a program -/

/-- The tables hold the classes of the program, each under its name. -/
structure Represents (cfg : Configuration) (p : Program) (tables : Tables) : Prop where
  sound : ∀ {owner table}, tables.get? owner = some table → ∃ c ∈ p.classes, c.name = owner ∧
    ClassDeclaredAs noDiagnostic (.ofConfiguration cfg) c table
  complete : ∀ {c}, c ∈ p.classes → ∃ table, tables.get? c.name = some table ∧
    ClassDeclaredAs noDiagnostic (.ofConfiguration cfg) c table

namespace Represents

variable {p : Program} {tables : Tables}

/-- The first pass over classes with different names represents them. -/
theorem of_within
    (h : Within noDiagnostic (resolveClasses (.ofConfiguration cfg) ∅ p.classes) tables)
    (hn : (p.classes.map ClassDecl.name).Nodup) : Represents cfg p tables where
  sound ht := by
    rcases exists_class_of_get? h ht with hc | hempty
    · exact hc
    · cases hempty
  complete hc := get?_of_mem h hn hc

theorem field_eq_ok (h : Represents cfg p tables) {host : HostType} {name : String}
    {r : ResolvedField} :
    tables.field host name = .ok r ↔ ∃ c f, host = .declared c.name ∧ c ∈ p.classes ∧
      c.field? name = some f ∧ FieldDeclaredAs noDiagnostic (.ofConfiguration cfg) f r := by
  rw [Tables.field_eq_ok]
  constructor
  · rintro ⟨owner, rfl, table, htable, hr⟩
    obtain ⟨c, hc, rfl, hdecl⟩ := h.sound htable
    rcases hdecl.field name with ⟨-, hnone⟩ | ⟨f, r', hf, hr', hfr⟩
    · rw [hnone] at hr; cases hr
    · obtain rfl : r' = r := Option.some.inj (hr'.symm.trans hr)
      exact ⟨c, f, rfl, hc, hf, hfr⟩
  · rintro ⟨c, f, rfl, hc, hf, hfr⟩
    obtain ⟨table, htable, hdecl⟩ := h.complete hc
    rcases hdecl.field name with ⟨hnone, -⟩ | ⟨f', r', hf', hr', hfr'⟩
    · rw [hnone] at hf; cases hf
    · obtain rfl : f' = f := Option.some.inj (hf'.symm.trans hf)
      rw [hfr.unique hfr']
      exact ⟨c.name, rfl, table, htable, hr'⟩

theorem constructor_eq_ok (h : Represents cfg p tables) {owner : String} {arity : Nat}
    {r : ResolvedConstructor} :
    tables.constructor owner arity = .ok r ↔ ∃ c k, owner = c.name ∧ c ∈ p.classes ∧
      c.constructor? arity = some k ∧
      ConstructorDeclaredAs noDiagnostic (.ofConfiguration cfg) c k r := by
  rw [Tables.constructor_eq_ok]
  constructor
  · rintro ⟨table, htable, hr⟩
    obtain ⟨c, hc, rfl, hdecl⟩ := h.sound htable
    rcases hdecl.constructor arity with ⟨-, hnone⟩ | ⟨k, r', hk, hr', hkr⟩
    · rw [hnone] at hr; cases hr
    · obtain rfl : r' = r := Option.some.inj (hr'.symm.trans hr)
      exact ⟨c, k, rfl, hc, hk, hkr⟩
  · rintro ⟨c, k, rfl, hc, hk, hkr⟩
    obtain ⟨table, htable, hdecl⟩ := h.complete hc
    rcases hdecl.constructor arity with ⟨hnone, -⟩ | ⟨k', r', hk', hr', hkr'⟩
    · rw [hnone] at hk; cases hk
    · obtain rfl : k' = k := Option.some.inj (hk'.symm.trans hk)
      rw [hkr.unique hkr']
      exact ⟨table, htable, hr'⟩

theorem method_eq_ok (h : Represents cfg p tables) {owner name : String} {arity : Nat}
    {r : ResolvedMethod} :
    tables.method owner name arity = .ok r ↔ ∃ c m, owner = c.name ∧ c ∈ p.classes ∧
      c.method? name arity = some m ∧
      MethodDeclaredAs noDiagnostic (.ofConfiguration cfg) c m r := by
  rw [Tables.method_eq_ok]
  constructor
  · rintro ⟨table, htable, hr⟩
    obtain ⟨c, hc, rfl, hdecl⟩ := h.sound htable
    rcases hdecl.method name arity with ⟨-, hnone⟩ | ⟨m, r', hm, hr', hmr⟩
    · rw [hnone] at hr; cases hr
    · obtain rfl : r' = r := Option.some.inj (hr'.symm.trans hr)
      exact ⟨c, m, rfl, hc, hm, hmr⟩
  · rintro ⟨c, m, rfl, hc, hm, hmr⟩
    obtain ⟨table, htable, hdecl⟩ := h.complete hc
    rcases hdecl.method name arity with ⟨hnone, -⟩ | ⟨m', r', hm', hr', hmr'⟩
    · rw [hnone] at hm; cases hm
    · obtain rfl : m' = m := Option.some.inj (hm'.symm.trans hm)
      rw [hmr.unique hmr']
      exact ⟨table, htable, hr'⟩

end Represents

end Typing

end Mutability
