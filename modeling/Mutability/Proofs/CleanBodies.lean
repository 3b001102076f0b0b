import Mutability.Proofs.TypingTables

/-!
# Bodies checked without a diagnostic

Against tables that represent the program, a body is checked without a diagnostic exactly if it is
well typed (`checkBody_iff`). The proof compares, form by form, a run that reports nothing with the
rule of the judgement: first the obligations, where a list of diagnostics is empty exactly if the
side condition of the rule holds; then expressions (`checkExpr_iff`), by induction on the expression
with the scope fixed; then statements, where the scope of the checker and the variables of the
judgement change together (`checkStmt_sound`, `checkStmt_complete`).

The checker keeps for each variable its declared position beside its present qualifier. What ties
this to the judgement is that an annotated variable always has the qualifier written on it
(`KeepsAnnotation`), so that assigning to it asks for its present qualifier.
-/

namespace Mutability

open Typing

/-! ## Obligations -/

theorem diagnostic_unless_eq_nil {c : Prop} [Decidable c] {d : Diagnostic} :
    (if c then [] else [d]) = [] ↔ c := by
  simp

namespace Construction

theorem argumentDiagnostics_eq_nil {adapted : Qualifier → Qualifier} {index : Nat}
    {args params : List Qualifier} (h : args.length = params.length) :
    argumentDiagnostics adapted index args params = [] ↔
      List.Forall₂ (fun a q => a ≤ adapted q) args params := by
  induction args generalizing index params with
  | nil =>
    cases params with
    | nil => exact ⟨fun _ => .nil, fun _ => rfl⟩
    | cons q qs => cases h
  | cons a as ih =>
    cases params with
    | nil => cases h
    | cons q qs =>
      have hlen : as.length = qs.length := Nat.succ.inj h
      unfold argumentDiagnostics
      rw [List.append_eq_nil_iff, List.forall₂_cons, ih hlen, diagnostic_unless_eq_nil]

/-- Nothing is wrong with a creation apart from its arguments if it is as the constructor declares,
and not `readonly`. -/
theorem invocationDiagnostics_eq_nil_iff {declared : Qualifier} {requested : Option Qualifier}
    {args params : List Qualifier} :
    invocationDiagnostics declared requested args params = [] ↔
      requested.getD declared = declared ∧ requested.getD declared ≠ .readonly ∧
        argumentDiagnostics (Viewpoint.adaptInvocation (requested.getD declared)) 0 args params =
          [] := by
  unfold invocationDiagnostics
  dsimp only
  rw [List.append_eq_nil_iff, List.append_eq_nil_iff, ← and_assoc]
  refine and_congr_left fun _ => ?_
  constructor
  · rintro ⟨hro, hinv⟩
    have hne : requested.getD declared ≠ .readonly := by
      intro he
      rw [if_pos he] at hro
      cases hro
    have heq : requested.getD declared = declared := by
      by_contra hx
      rw [if_pos (Or.inr hx)] at hinv
      cases hinv
    exact ⟨heq, hne⟩
  · rintro ⟨heq, hne⟩
    rw [if_neg hne, if_neg (by simp [heq, heq ▸ hne])]
    exact ⟨rfl, rfl⟩

theorem invocationDiagnostics_eq_nil {declared : Qualifier} {requested : Option Qualifier}
    {args params : List Qualifier} (h : args.length = params.length) :
    invocationDiagnostics declared requested args params = [] ↔
      requested.getD declared = declared ∧ declared ≠ .readonly ∧
        List.Forall₂ (fun a q => a ≤ Viewpoint.adaptInvocation declared q) args params := by
  rw [invocationDiagnostics_eq_nil_iff]
  refine and_congr_right fun heq => ?_
  rw [heq, argumentDiagnostics_eq_nil h]

theorem declarationDiagnostics_eq_nil {ret : Qualifier} {params : List Qualifier} :
    declarationDiagnostics ret params = [] ↔
      ret ∈ returnQualifiers ∧ (ret = .immutable → .mutable ∉ params) := by
  unfold declarationDiagnostics
  rw [List.append_eq_nil_iff, diagnostic_unless_eq_nil]
  refine and_congr_right fun _ => ?_
  by_cases h : ret = .immutable
  · subst h
    -- A polymorphic parameter is captured as `immutable`, so only `mutable` ones count.
    have hcap : ∀ q : Qualifier, capturedAs .immutable q = .mutable ↔ q = .mutable := by
      intro q; cases q <;> decide
    rw [if_pos rfl]
    cases hf : params.findIdx? fun q => capturedAs .immutable q = .mutable with
    | some index =>
      have hsome : (params.findIdx? fun q => capturedAs .immutable q = .mutable).isSome := by
        rw [hf]; rfl
      rw [List.findIdx?_isSome, List.any_eq_true] at hsome
      obtain ⟨q, hq, hm⟩ := hsome
      obtain rfl := (hcap q).1 (of_decide_eq_true hm)
      simp [hq]
    | none =>
      rw [List.findIdx?_eq_none_iff] at hf
      refine ⟨fun _ _ hm => ?_, fun _ => rfl⟩
      have hnot := hf .mutable hm
      rw [decide_eq_false_iff_not, hcap] at hnot
      exact hnot rfl
  · simp [h]

end Construction

namespace Checker

theorem misfit_eq_nil {kind : Diagnostic.Kind} {found : Qualifier} {o : Option Qualifier} :
    misfit kind found o = [] ↔ ∀ required, o = some required → found ≤ required := by
  cases o with
  | none => simp [misfit]
  | some required =>
    unfold misfit
    rw [diagnostic_unless_eq_nil]
    simp

/-- A field may be written exactly in the four cases that the judgement names. -/
theorem canAssign_iff {M : Member} {f : FieldDecl} {q r : Qualifier} {receiver : Expr} :
    (Field.ofDeclaration f.name q (.ofModifiers f.isFinal f.isAssignable) f.isStatic).canAssign
        (if f.isStatic then .mutable else r) (M.inConstructor && isSelf receiver) = true ↔
      MayWrite M f receiver r := by
  have hself : isSelf receiver = true ↔ receiver = .self := by
    cases receiver <;> simp [isSelf]
  have hmut : ∀ x : Qualifier, Field.permitsMutation x = true ↔ x = .mutable := by
    intro x; cases x <;> decide
  constructor
  · intro h
    cases hfin : f.isFinal with
    | true =>
      simp [Field.canAssign, Field.ofDeclaration, Assignability.ofModifiers, hfin, hself] at h
      exact .initializer hfin h.1 h.2
    | false =>
      cases has : f.isAssignable with
      | true => exact .assignable hfin has
      | false =>
        cases hst : f.isStatic with
        | true => exact .static hfin hst
        | false =>
          simp [Field.canAssign, Field.ofDeclaration, Assignability.ofModifiers, hfin, has, hst,
            hmut] at h
          exact .mutable hfin h
  · rintro (⟨hfin, has⟩ | ⟨hfin, hcons, hrec⟩ | ⟨hfin, hst⟩ | ⟨hfin, hr⟩)
    · simp [Field.canAssign, Field.ofDeclaration, Assignability.ofModifiers, hfin, has]
    · simp [Field.canAssign, Field.ofDeclaration, Assignability.ofModifiers, hfin, hcons, hrec,
        isSelf]
    · cases f.isAssignable <;>
        simp [Field.canAssign, Field.ofDeclaration, Assignability.ofModifiers, hfin, hst]
    · cases f.isAssignable <;>
        simp [Field.canAssign, Field.ofDeclaration, Assignability.ofModifiers, hfin, hmut, hr]

theorem seenThrough_iff {field : Field} {r q : Qualifier} :
    SeenThrough r field.declared q ↔ field.viewedThrough r = q := by
  unfold Field.viewedThrough Viewpoint.adapt
  constructor
  · intro h
    generalize field.declared = declared at h ⊢
    cases h with
    | dependant => exact if_pos rfl
    | fixed hne => exact if_neg hne
  · rintro rfl
    by_cases hd : field.declared = .receiverDependant
    · rw [if_pos hd, hd]
      exact .dependant
    · rw [if_neg hd]
      exact .fixed hd

theorem writeDiagnostics_eq_nil {M : Member} {f : FieldDecl} {q r value : Qualifier}
    {receiver : Expr} {field : Field}
    (hfield : field = .ofDeclaration f.name q (.ofModifiers f.isFinal f.isAssignable) f.isStatic) :
    field.writeDiagnostics r (M.inConstructor && isSelf receiver) value = [] ↔
      MayWrite M f receiver r ∧
        value ≤ field.viewedThrough (if f.isStatic then .mutable else r) := by
  have heff : field.effectiveReceiver r = if f.isStatic then .mutable else r := by
    subst hfield; rfl
  unfold Field.writeDiagnostics
  dsimp only
  rw [List.append_eq_nil_iff, heff, ← canAssign_iff (q := q), ← hfield, diagnostic_unless_eq_nil,
    diagnostic_unless_eq_nil]

/-! ## Expressions -/

/-- A variable as the judgement sees it. -/
def Var.variable (v : Var) : Variable :=
  ⟨v.declared.host, v.declared.isExplicit, v.current⟩

/-- The variables as the judgement sees them. -/
def variablesOf (vars : OrderedMap String Var) : Vars :=
  fun x => (vars.get? x).map Var.variable

/-- The member of a scope as the judgement sees it. -/
def Scope.member (s : Scope) : Member :=
  ⟨s.location.className, s.receiver, s.inConstructor, s.returns⟩

section

variable {cfg : Configuration} {p : Program} {tables : Tables} {s : Scope}

theorem checkArgs_iff {args : List Expr} {qs : List Qualifier}
    (ih : ∀ e ∈ args, ∀ host q,
      Within noDiagnostic (checkExpr ⟨.ofConfiguration cfg, tables⟩ s e) ⟨host, q⟩ ↔
        HasType cfg p s.member (variablesOf s.vars) e host q) :
    Within noDiagnostic (checkArgs ⟨.ofConfiguration cfg, tables⟩ s args) qs ↔
      HaveTypes cfg p s.member (variablesOf s.vars) args qs := by
  rw [within_checkArgs]
  induction args generalizing qs with
  | nil =>
    constructor
    · intro h; cases h; exact .nil
    · intro h; cases h; exact .nil
  | cons e rest ihrest =>
    have he := ih e List.mem_cons_self
    have hrest := fun a ha => ih a (List.mem_cons_of_mem e ha)
    constructor
    · intro h
      cases h with
      | cons hq hqs =>
        obtain ⟨⟨host, q⟩, ht, rfl⟩ := hq
        exact .cons ((he _ _).1 ht) ((ihrest hrest).1 hqs)
    · intro h
      cases h with
      | cons hq hqs => exact .cons ⟨_, (he _ _).2 hq, rfl⟩ ((ihrest hrest).2 hqs)

theorem length_of_constructor? {c : ClassDecl} {k : ConstructorDecl} {arity : Nat}
    (h : c.constructor? arity = some k) : k.params.length = arity := by
  have hk := List.find?_some h
  exact of_decide_eq_true hk

theorem length_of_method? {c : ClassDecl} {m : MethodDecl} {name : String} {arity : Nat}
    (h : c.method? name arity = some m) : m.params.length = arity := by
  have hm := List.find?_some h
  exact (of_decide_eq_true hm).2

theorem length_seenFrom (σ : Signature) (r : Option Qualifier) :
    (σ.seenFrom r).params.length = σ.params.length := by
  unfold Signature.seenFrom Signature.substituteStatic
  split
  · split
    · exact List.length_map ..
    · rfl
  · cases r with
    | none => rfl
    | some q => exact List.length_map ..

/-- Against tables that represent the program, an expression is checked without a diagnostic
exactly if it has a type, and then with that type. -/
theorem checkExpr_iff (hrep : Represents cfg p tables) (e : Expr) (host : HostType)
    (q : Qualifier) :
    Within noDiagnostic (checkExpr ⟨.ofConfiguration cfg, tables⟩ s e) ⟨host, q⟩ ↔
      HasType cfg p s.member (variablesOf s.vars) e host q := by
  induction e using Expr.inductionOn generalizing host q with
  | self =>
    rw [within_self]
    constructor
    · rintro ⟨r, hr, ht⟩
      cases ht
      exact .self hr
    · intro h
      cases h with
      | self hr => exact ⟨_, hr, rfl⟩
  | null =>
    rw [within_null]
    constructor
    · intro ht
      cases ht
      rw [Policy.defaultQualifier_null]
      exact .null
    · intro h
      cases h
      rw [Policy.defaultQualifier_null]
  | literal lit =>
    rw [within_literal, Policy.defaultQualifier_localVariable]
    constructor
    · intro ht
      cases ht
      exact .literal
    · intro h
      cases h
      rfl
  | var name =>
    rw [within_var]
    constructor
    · rintro ⟨v, hv, ht⟩
      cases ht
      refine .var (v := v.variable) ?_
      unfold variablesOf
      rw [hv]
      rfl
    · intro h
      cases h with
      | var hv =>
        obtain ⟨v, hv', rfl⟩ := Option.map_eq_some_iff.1 hv
        exact ⟨v, hv', rfl⟩
  | fieldRead receiver name ih =>
    rw [within_fieldRead]
    constructor
    · rintro ⟨⟨targetHost, r⟩, resolved, htarget, hf, ht⟩
      obtain ⟨c, f, rfl, hc, hfind, hdecl⟩ := hrep.field_eq_ok.1 hf
      obtain ⟨field, fhost⟩ := resolved
      obtain rfl : fhost = f.host := hdecl.host_eq
      have hfield := declaresField_iff.2 hdecl
      have hst : field.isStatic = f.isStatic := by
        obtain ⟨d, -, rfl⟩ := hfield
        rfl
      cases ht
      unfold ResolvedField.readThrough
      rw [hst]
      cases hs : f.isStatic with
      | true => exact .staticField ((ih _ _).1 htarget) hc hfind hfield hs
      | false =>
        exact .instanceField ((ih _ _).1 htarget) hc hfind hfield hs (seenThrough_iff.2 rfl)
    · intro h
      cases h with
      | @staticField _ c r _ f field htarget hc hfind hfield hs =>
        refine ⟨⟨_, r⟩, ⟨field, f.host⟩, (ih _ _).2 htarget,
          hrep.field_eq_ok.2 ⟨c, f, rfl, hc, hfind, declaresField_iff.1 hfield⟩, ?_⟩
        obtain ⟨d, -, rfl⟩ := hfield
        simp [ResolvedField.readThrough, Field.ofDeclaration, hs]
      | @instanceField _ c r _ _ f field htarget hc hfind hfield hs hseen =>
        refine ⟨⟨_, r⟩, ⟨field, f.host⟩, (ih _ _).2 htarget,
          hrep.field_eq_ok.2 ⟨c, f, rfl, hc, hfind, declaresField_iff.1 hfield⟩, ?_⟩
        rw [← seenThrough_iff.1 hseen]
        obtain ⟨d, -, rfl⟩ := hfield
        simp [ResolvedField.readThrough, Field.ofDeclaration, hs]
  | create owner text args ih =>
    rw [within_create]
    constructor
    · rintro ⟨k, requested, qs, hk, hreq, hlegal, hqs, hinv, ht⟩
      obtain ⟨c, kd, rfl, hc, hfind, hdecl⟩ := hrep.constructor_eq_ok.1 hk
      have hargs := (checkArgs_iff ih).1 hqs
      have hlen : qs.length = (k.params.map fun p => p.declared.qualifier).length := by
        rw [hargs.length_eq, List.length_map, ← hdecl.params.length_eq,
          length_of_constructor? hfind]
      obtain ⟨heq, hne, hfit⟩ :=
        (Construction.invocationDiagnostics_eq_nil hlen).1 (forall_noDiagnostic.1 hinv)
      rw [heq] at ht
      cases ht
      exact .create hc hfind (declaresConstructor_iff.2 ⟨k, hdecl, rfl, rfl⟩)
        (legal_iff.2 ⟨hreq, hlegal⟩) hargs heq hne hfit
    · intro h
      cases h with
      | create hc hfind hcons hlegal hargs heq hne hfit =>
        obtain ⟨k, hdecl, rfl, rfl⟩ := declaresConstructor_iff.1 hcons
        obtain ⟨hreq, hnone⟩ := legal_iff.1 hlegal
        refine ⟨k, _, _, hrep.constructor_eq_ok.2 ⟨_, _, rfl, hc, hfind, hdecl⟩, hreq, hnone,
          (checkArgs_iff ih).2 hargs, ?_, by rw [heq]⟩
        exact forall_noDiagnostic.2
          ((Construction.invocationDiagnostics_eq_nil hfit.length_eq).2 ⟨heq, hne, hfit⟩)
  | call receiver name args ihr ih =>
    rw [within_call]
    constructor
    · rintro ⟨⟨targetHost, r⟩, owner, m, qs, htarget, rfl, hm, hqs, hrec, hfit, ht⟩
      obtain ⟨c, md, rfl, hc, hfind, hdecl⟩ := hrep.method_eq_ok.1 hm
      have hargs := (checkArgs_iff ih).1 hqs
      have hlen : qs.length = (m.signature.seenFrom (some r)).params.length := by
        rw [length_seenFrom, hargs.length_eq, hdecl.qualifiers, List.length_map,
          ← hdecl.params.length_eq, length_of_method? hfind]
      cases ht
      rw [hdecl.returns]
      exact .call ((ihr _ _).1 htarget) hc hfind (declaresMethod_iff.2 ⟨m, hdecl, rfl⟩) hargs
        (misfit_eq_nil.1 (forall_noDiagnostic.1 hrec))
        ((Construction.argumentDiagnostics_eq_nil hlen).1 (forall_noDiagnostic.1 hfit))
    · intro h
      cases h with
      | call htarget hc hfind hmethod hargs hrec hfit =>
        obtain ⟨m, hdecl, rfl⟩ := declaresMethod_iff.1 hmethod
        refine ⟨⟨_, _⟩, _, m, _, (ihr _ _).2 htarget, rfl,
          hrep.method_eq_ok.2 ⟨_, _, rfl, hc, hfind, hdecl⟩, (checkArgs_iff ih).2 hargs,
          forall_noDiagnostic.2 (misfit_eq_nil.2 hrec), ?_, by rw [hdecl.returns]⟩
        exact forall_noDiagnostic.2
          ((Construction.argumentDiagnostics_eq_nil hfit.length_eq).2 hfit)
  | staticCall owner name args ih =>
    rw [within_staticCall]
    constructor
    · rintro ⟨m, qs, hm, hqs, hfit, ht⟩
      obtain ⟨c, md, rfl, hc, hfind, hdecl⟩ := hrep.method_eq_ok.1 hm
      have hargs := (checkArgs_iff ih).1 hqs
      have hlen : qs.length = ((m.signature.seenFrom none).bind qs).signature.params.length := by
        show qs.length = ((m.signature.seenFrom none).params.map _).length
        rw [List.length_map, length_seenFrom, hargs.length_eq, hdecl.qualifiers, List.length_map,
          ← hdecl.params.length_eq, length_of_method? hfind]
      cases ht
      rw [hdecl.returns]
      exact .staticCall hc hfind (declaresMethod_iff.2 ⟨m, hdecl, rfl⟩) hargs
        ((Construction.argumentDiagnostics_eq_nil hlen).1 (forall_noDiagnostic.1 hfit))
    · intro h
      cases h with
      | staticCall hc hfind hmethod hargs hfit =>
        obtain ⟨m, hdecl, rfl⟩ := declaresMethod_iff.1 hmethod
        refine ⟨m, _, hrep.method_eq_ok.2 ⟨_, _, rfl, hc, hfind, hdecl⟩,
          (checkArgs_iff ih).2 hargs, ?_, by rw [hdecl.returns]⟩
        exact forall_noDiagnostic.2
          ((Construction.argumentDiagnostics_eq_nil hfit.length_eq).2 hfit)
  | cast target text operand ih =>
    rw [within_cast]
    constructor
    · rintro ⟨⟨operandHost, r⟩, explicit, q', hinner, hexp, hlegal, hq, ht⟩
      have hop := Policy.qualifierOf_operand cfg (Or.inl rfl) target explicit r
      obtain rfl : q' = explicit.getD (cfg.settled target r) := Except.ok.inj (hq.symm.trans hop)
      cases ht
      exact .cast ((ih _ _).1 hinner) (legal_iff.2 ⟨hexp, hlegal⟩)
    · intro h
      cases h with
      | cast hinner hlegal =>
        obtain ⟨hexp, hnone⟩ := legal_iff.1 hlegal
        exact ⟨⟨_, _⟩, _, _, (ih _ _).2 hinner, hexp, hnone,
          Policy.qualifierOf_operand cfg (Or.inl rfl) target _ _, rfl⟩
  | binary target lhs rhs ihl ihr =>
    rw [within_binary]
    constructor
    · rintro ⟨⟨lhost, l⟩, ⟨rhost, r⟩, q', hl, hr, hq, ht⟩
      have hop := Policy.qualifierOf_operand cfg (Or.inr rfl) target none (l.join r)
      obtain rfl : q' = cfg.settled target (l.join r) := Except.ok.inj (hq.symm.trans hop)
      cases ht
      exact .binary ((ihl _ _).1 hl) ((ihr _ _).1 hr)
    · intro h
      cases h with
      | binary hl hr =>
        exact ⟨⟨_, _⟩, ⟨_, _⟩, _, (ihl _ _).2 hl, (ihr _ _).2 hr,
          Policy.qualifierOf_operand cfg (Or.inr rfl) target none _, rfl⟩

/-! ## Statements -/

theorem variablesOf_insert (vars : OrderedMap String Var) (x : String) (v : Var) :
    variablesOf (vars.insert x v) = (variablesOf vars).set x v.variable := by
  funext y
  unfold variablesOf Vars.set
  rw [OrderedMap.get?_insert]
  split <;> rfl

/-- An annotated variable has the qualifier that is written on it. -/
def KeepsAnnotation (v : Var) : Prop :=
  v.declared.isExplicit = true → v.declared.qualifier? = some v.current

theorem keepsAnnotation_declared (d : Declared) : KeepsAnnotation ⟨d.position, d.qualifier⟩ :=
  fun _ => d.qualifier?_position

theorem keepsAnnotation_of_assignVar {P : Diagnostic → Prop} {env : Env} {v : Var}
    {value q : Qualifier} (h : Within P (assignVar env s v.declared value) q) :
    KeepsAnnotation ⟨v.declared, q⟩ := by
  intro he
  obtain ⟨required, hreq, hq⟩ := within_assignVar.1 h
  rw [if_pos he] at hq
  rw [hq.2]
  exact (Policy.qualifierOf_of_isExplicit env.policy he).1 hreq

theorem assignVar_iff {v : Var} (hv : KeepsAnnotation v) {value q : Qualifier} :
    Within noDiagnostic (assignVar ⟨.ofConfiguration cfg, tables⟩ s v.declared value) q ↔
      Assigns cfg value v.variable (Var.mk v.declared q).variable := by
  rw [within_assignVar, assigns_iff]
  show _ ↔ if v.declared.isExplicit then value ≤ v.current ∧
      Variable.mk v.declared.host v.declared.isExplicit q =
        ⟨v.declared.host, v.declared.isExplicit, v.current⟩
    else Variable.mk v.declared.host v.declared.isExplicit q =
        ⟨v.declared.host, v.declared.isExplicit, cfg.settled v.declared.host value⟩
  cases he : v.declared.isExplicit with
  | true =>
    have hcur : (Policy.ofConfiguration cfg).qualifierOf v.declared = .ok v.current :=
      (Policy.qualifierOf_of_isExplicit _ he).2 (hv he)
    simp only [hcur, Except.ok.injEq, exists_eq_left', if_true, forall_noDiagnostic, misfit_eq_nil,
      Option.some.injEq, forall_eq', Variable.mk.injEq, true_and]
  | false =>
    obtain ⟨required, hreq⟩ := Policy.qualifierOf_total (Policy.generic_mem_standard cfg) v.declared
    simp only [hreq, Except.ok.injEq, exists_eq_left', Bool.false_eq_true, if_false,
      Variable.mk.injEq, true_and]
    exact Iff.rfl

theorem exists_qualifier_of_assigns {v : Var} {v' : Variable} {value : Qualifier}
    (h : Assigns cfg value v.variable v') : ∃ q, v' = (Var.mk v.declared q).variable := by
  cases h with
  | fixed => exact ⟨v.current, rfl⟩
  | tracked => exact ⟨cfg.settled v.declared.host value, rfl⟩

theorem variable_of_declaredAs {P : Diagnostic → Prop} {π : Policy} {kind : Position.Kind}
    {host : HostType} {text : Option String} {d : Declared} (h : DeclaredAs P π kind host text d) :
    (Var.mk d.position d.qualifier).variable = ⟨host, text.isSome, d.qualifier⟩ := by
  unfold Var.variable
  rw [h.host_eq, h.isExplicit_eq]

/-- A statement that is checked without a diagnostic is well typed, and the scope after it has the
variables that the judgement says. -/
theorem checkStmt_sound (hrep : Represents cfg p tables) (hs : s.VarsAre KeepsAnnotation)
    {stmt : Stmt} {s' : Scope}
    (h : Within noDiagnostic (checkStmt ⟨.ofConfiguration cfg, tables⟩ s stmt) s') :
    StmtTyped cfg p s.member (variablesOf s.vars) stmt (variablesOf s'.vars) := by
  cases stmt with
  | localVar name host text init =>
    cases init with
    | none =>
      obtain ⟨d, hd, rfl⟩ := within_localVar_none.1 h
      rw [variablesOf_insert, variable_of_declaredAs hd]
      exact .localVar (declares_iff.2 ⟨d, hd, rfl⟩)
    | some e =>
      obtain ⟨d, value, q, hd, hvalue, hq, rfl⟩ := within_localVar_some.1 h
      rw [variablesOf_insert]
      have hassign := (assignVar_iff (keepsAnnotation_declared d)).1 hq
      rw [variable_of_declaredAs hd] at hassign
      exact .initialized (declares_iff.2 ⟨d, hd, rfl⟩) ((checkExpr_iff hrep e _ _).1 hvalue) hassign
  | assign target e =>
    obtain ⟨v, value, q, hv, hvalue, hq, rfl⟩ := within_assign.1 h
    rw [variablesOf_insert]
    have hget : variablesOf s.vars target = some v.variable := by
      unfold variablesOf
      rw [hv]
      rfl
    exact .assign hget ((checkExpr_iff hrep e _ _).1 hvalue)
      ((assignVar_iff (hs target v hv)).1 hq)
  | fieldWrite receiver name e =>
    obtain ⟨target, resolved, value, htarget, hf, hvalue, hw, rfl⟩ := within_fieldWrite.1 h
    obtain ⟨c, f, hhost, hc, hfind, hdecl⟩ := hrep.field_eq_ok.1 hf
    obtain ⟨targetHost, r⟩ := target
    obtain ⟨field, fhost⟩ := resolved
    obtain rfl : targetHost = .declared c.name := hhost
    obtain rfl : fhost = f.host := hdecl.host_eq
    have hfield := declaresField_iff.2 hdecl
    obtain ⟨hmay, hle⟩ := (writeDiagnostics_eq_nil (M := s.member) hfield.choose_spec.2).1
      (forall_noDiagnostic.1 hw)
    have hvars : variablesOf (if s.inConstructor && isSelf receiver then
        { s with written := name :: s.written } else s).vars = variablesOf s.vars := by
      split <;> rfl
    rw [hvars]
    exact .fieldWrite ((checkExpr_iff hrep receiver _ _).1 htarget) hc hfind hfield
      ((checkExpr_iff hrep e _ _).1 hvalue) hmay (seenThrough_iff.2 rfl) hle
  | eval e =>
    obtain ⟨⟨t, ht⟩, rfl⟩ := within_eval.1 h
    exact .eval ((checkExpr_iff hrep e _ _).1 ht)
  | exit value =>
    cases value with
    | none =>
      obtain rfl := within_exit_none.1 h
      exact .exit
    | some e =>
      obtain ⟨value, hvalue, hret, rfl⟩ := within_exit_some.1 h
      exact .exitWith ((checkExpr_iff hrep e _ _).1 hvalue)
        (misfit_eq_nil.1 (forall_noDiagnostic.1 hret))

/-- A well typed statement is checked without a diagnostic, up to a scope with the variables that
the judgement says. -/
theorem checkStmt_complete (hrep : Represents cfg p tables) (hs : s.VarsAre KeepsAnnotation)
    {stmt : Stmt} {Γ : Vars} (h : StmtTyped cfg p s.member (variablesOf s.vars) stmt Γ) :
    ∃ s', Within noDiagnostic (checkStmt ⟨.ofConfiguration cfg, tables⟩ s stmt) s' ∧
      variablesOf s'.vars = Γ := by
  cases h with
  | localVar hq =>
    obtain ⟨d, hd, rfl⟩ := declares_iff.1 hq
    refine ⟨_, within_localVar_none.2 ⟨d, hd, rfl⟩, ?_⟩
    rw [variablesOf_insert, variable_of_declaredAs hd]
  | @initialized x host valueHost text q value e v hq hvalue hassign =>
    obtain ⟨d, hd, rfl⟩ := declares_iff.1 hq
    rw [← variable_of_declaredAs hd] at hassign
    obtain ⟨q', rfl⟩ := exists_qualifier_of_assigns hassign
    refine ⟨_, within_localVar_some.2 ⟨d, ⟨valueHost, value⟩, q', hd,
      (checkExpr_iff hrep e _ _).2 hvalue,
      (assignVar_iff (keepsAnnotation_declared d)).2 hassign, rfl⟩, ?_⟩
    rw [variablesOf_insert]
  | @assign x valueHost value e v v' hget hvalue hassign =>
    obtain ⟨w, hw, rfl⟩ := Option.map_eq_some_iff.1 hget
    obtain ⟨q', rfl⟩ := exists_qualifier_of_assigns hassign
    refine ⟨_, within_assign.2 ⟨w, ⟨valueHost, value⟩, q', hw,
      (checkExpr_iff hrep e _ _).2 hvalue, (assignVar_iff (hs x w hw)).2 hassign, rfl⟩, ?_⟩
    rw [variablesOf_insert]
  | @fieldWrite receiver e c r value required name f field valueHost htarget hc hfind hfield hvalue
      hmay hseen hle =>
    rw [← seenThrough_iff.1 hseen] at hle
    have hw := (writeDiagnostics_eq_nil hfield.choose_spec.2).2 ⟨hmay, hle⟩
    refine ⟨_, within_fieldWrite.2 ⟨⟨.declared c.name, r⟩, ⟨field, f.host⟩, ⟨valueHost, value⟩,
      (checkExpr_iff hrep receiver _ _).2 htarget,
      hrep.field_eq_ok.2 ⟨c, f, rfl, hc, hfind, declaresField_iff.1 hfield⟩,
      (checkExpr_iff hrep e _ _).2 hvalue, forall_noDiagnostic.2 hw, rfl⟩, ?_⟩
    split <;> rfl
  | eval hq => exact ⟨s, within_eval.2 ⟨⟨⟨_, _⟩, (checkExpr_iff hrep _ _ _).2 hq⟩, rfl⟩, rfl⟩
  | exit => exact ⟨s, within_exit_none.2 rfl, rfl⟩
  | exitWith hq hret =>
    exact ⟨s, within_exit_some.2 ⟨⟨_, _⟩, (checkExpr_iff hrep _ _ _).2 hq,
      forall_noDiagnostic.2 (misfit_eq_nil.2 hret), rfl⟩, rfl⟩

theorem Scope.SameMember.member_eq {s' : Scope} (h : s.SameMember s') : s'.member = s.member := by
  unfold Scope.member
  rw [h.location, h.receiver, h.inConstructor, h.returns]

/-- A body is checked without a diagnostic exactly if it is well typed. -/
theorem checkBody_iff (hrep : Represents cfg p tables) (hs : s.VarsAre KeepsAnnotation)
    {body : List Stmt} :
    (∃ s', Within noDiagnostic (checkBody ⟨.ofConfiguration cfg, tables⟩ s body) s') ↔
      BodyTyped cfg p s.member (variablesOf s.vars) body := by
  induction body generalizing s with
  | nil => exact ⟨fun _ => .nil, fun _ => ⟨s, within_checkBody_nil.2 rfl⟩⟩
  | cons stmt rest ih =>
    -- The statement leaves the member alone and keeps the annotated variables, so that the
    -- induction hypothesis applies to the scope after it.
    have hnext : ∀ {next}, Within noDiagnostic
        (checkStmt ⟨.ofConfiguration cfg, tables⟩ s stmt) next →
        next.VarsAre KeepsAnnotation ∧ next.member = s.member := fun hstmt =>
      ⟨hs.checkStmt (fun _ _ d _ => keepsAnnotation_declared d)
        (fun _ _ _ _ _ _ _ hq => keepsAnnotation_of_assignVar hq) hstmt,
        (sameMember_of_checkStmt hstmt).member_eq⟩
    constructor
    · rintro ⟨s', h⟩
      obtain ⟨next, hstmt, hrest⟩ := within_checkBody_cons.1 h
      obtain ⟨hkeeps, hmember⟩ := hnext hstmt
      have hbody := (ih hkeeps).1 ⟨s', hrest⟩
      rw [hmember] at hbody
      exact .cons (checkStmt_sound hrep hs hstmt) hbody
    · intro h
      cases h with
      | cons hstmt hrest =>
        obtain ⟨next, hnextStmt, rfl⟩ := checkStmt_complete hrep hs hstmt
        obtain ⟨hkeeps, hmember⟩ := hnext hnextStmt
        rw [← hmember] at hrest
        obtain ⟨s', hs'⟩ := (ih hkeeps).2 hrest
        exact ⟨s', within_checkBody_cons.2 ⟨next, hnextStmt, hs'⟩⟩

end

end Checker

end Mutability
