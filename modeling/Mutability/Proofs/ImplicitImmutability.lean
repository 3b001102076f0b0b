import Mutability.Proofs.Annotation
import Mutability.Proofs.Evaluation

/-!
# Values that can never change

On a type whose values can never change, every evaluation in a run gives the qualifier `immutable`,
as long as no annotation has been reported as illegal (`every_evaluation_settled`). The qualifier
of an expression comes from its tables, its scope or its operands, and each of these is `Settled`
by an invariant of its own: a table by the declarations it is made of, a scope by the parameters it
starts with and by every statement after that, and the operands of a cast or operator do not count
on such a type. Viewing a member through a receiver never changes `immutable`.
-/

namespace Mutability

/-- On a type whose values can never change the qualifier is `immutable`. -/
def Configuration.Settled (c : Configuration) (host : HostType) (q : Qualifier) : Prop :=
  c.isImplicitlyImmutable host = true → q = .immutable

theorem Configuration.settled_settled (c : Configuration) (host : HostType) (q : Qualifier) :
    c.Settled host (c.settled host q) := by
  intro hi
  unfold Configuration.settled
  rw [if_pos hi]

/-- A diagnostic other than those about annotations that can never be legal. -/
def Diagnostic.NotIllegal (d : Diagnostic) : Prop :=
  d.kind ≠ .typeInvalid ∧ d.kind ≠ .invalidCastQualifier

/-- Where nothing is reported about an annotation on a type whose values can never change, the
annotation is `immutable`. -/
theorem Position.eq_immutable_of_notIllegal {c : Configuration} {kind : Position.Kind}
    {host : HostType} {q : Qualifier} (hi : c.isImplicitlyImmutable host = true)
    (h : ∀ x ∈ (Position.written kind host (some q)).illegality? c, x.NotIllegal) :
    q = .immutable := by
  by_contra hq
  have hcond : (c.isImplicitlyImmutable host && q != .immutable) = true := by
    rw [hi, Bool.true_and, bne_iff_ne]
    exact hq
  have hill : (Position.written kind host (some q)).illegality? c =
      some ⟨if kind = .cast then .invalidCastQualifier else .typeInvalid,
        q.annotationName ++ " is not allowed on implicitly immutable type " ++ host.display⟩ :=
    if_pos hcond
  obtain ⟨htype, hcast⟩ := h _ hill
  dsimp only at htype hcast
  split at hcast
  · exact hcast rfl
  · next hk => rw [if_neg hk] at htype; exact htype rfl

theorem settled_of_notIllegal {c : Configuration} {kind : Position.Kind} {host : HostType}
    {explicit : Option Qualifier} {q : Qualifier} (hq : c.Settled host q)
    (h : ∀ x ∈ (Position.written kind host explicit).illegality? c, x.NotIllegal) :
    c.Settled host (explicit.getD q) := by
  intro hi
  cases explicit with
  | none => exact hq hi
  | some w => exact Position.eq_immutable_of_notIllegal hi h

namespace Checker

variable {cfg : Configuration}

/-! ## Tables -/

/-- A declaration gives a settled qualifier, and leaves it in its position. -/
theorem settled_of_declaredAs {kind : Position.Kind} {host : HostType} {text : Option String}
    {d : Declared} (h : DeclaredAs Diagnostic.NotIllegal (.ofConfiguration cfg) kind host text d) :
    cfg.Settled host d.qualifier ∧
      (cfg.isImplicitlyImmutable d.position.host = true →
        d.qualifier = .immutable ∧ d.position.qualifier? = some .immutable) := by
  obtain ⟨explicit, -, hlegal, hq, hpos⟩ := h
  have hhost : d.position.host = host := by
    rw [hpos, Policy.annotate_host]
    rfl
  have himm : cfg.isImplicitlyImmutable host = true →
      ((Policy.ofConfiguration cfg).annotate (.written kind host explicit)).qualifier? =
        some .immutable := by
    intro hi
    refine Policy.qualifier?_annotate_of_implicit hi fun he => ?_
    cases explicit with
    | none => cases he
    | some w => rw [Position.eq_immutable_of_notIllegal hi hlegal]; rfl
  have hset : cfg.Settled host d.qualifier := by
    intro hi
    have hsome := (himm hi).symm.trans (Policy.qualifierOf_eq_ok.1 hq)
    exact (Option.some.inj hsome).symm
  refine ⟨hset, fun hi => ?_⟩
  rw [hhost] at hi
  rw [hpos]
  exact ⟨hset hi, himm hi⟩

/-- A variable of a type whose values can never change is `immutable` now, and is declared so. -/
def SettledVar (cfg : Configuration) (v : Var) : Prop :=
  cfg.isImplicitlyImmutable v.declared.host = true →
    v.current = .immutable ∧ v.declared.qualifier? = some .immutable

/-- The parameters are settled as variables. -/
def SettledParams (cfg : Configuration) (rs : List ResolvedParam) : Prop :=
  ∀ r ∈ rs, SettledVar cfg ⟨r.declared.position, r.declared.qualifier⟩

/-- The members of the class `owner` have settled qualifiers. -/
structure SettledTable (cfg : Configuration) (owner : String) (table : ClassTable) : Prop where
  field : ∀ name f, table.fields.get? name = some f → cfg.Settled f.host f.field.declared
  created : ∀ k ∈ table.constructors, cfg.Settled (.declared owner) k.ret
  created_params : ∀ k ∈ table.constructors, SettledParams cfg k.params
  receiver : ∀ m ∈ table.methods, ∀ q, m.signature.receiver = some q →
    cfg.Settled (.declared owner) q
  params : ∀ m ∈ table.methods, SettledParams cfg m.params
  returned : ∀ m ∈ table.methods, cfg.Settled (m.returns.getD .null) m.signature.ret

theorem settledParams_of_declaredAs {method : String} {index : Nat} {ps : List ParamDecl}
    {rs : List ResolvedParam}
    (h : ParamsDeclaredAs Diagnostic.NotIllegal (.ofConfiguration cfg) method index ps rs) :
    SettledParams cfg rs := by
  intro r hr
  obtain ⟨i, p, -, hd⟩ := h.declaredAs hr
  exact (settled_of_declaredAs hd).2

theorem settledTable_of_declaredAs {c : ClassDecl} {table : ClassTable}
    (h : ClassDeclaredAs Diagnostic.NotIllegal (.ofConfiguration cfg) c table) :
    SettledTable cfg c.name table where
  field name f hf := by
    rcases h.field name with ⟨-, hnone⟩ | ⟨decl, f', -, hf', d, hd, rfl⟩
    · rw [hnone] at hf; cases hf
    · obtain rfl := Option.some.inj (hf'.symm.trans hf)
      intro hi
      -- An `immutable` field is not polymorphic, so it is taken as it is declared.
      show (if d.qualifier = .polyMutable then _ else _) = _
      rw [(settled_of_declaredAs hd).1 hi]
      rfl
  created k hk := by
    obtain ⟨decl, -, hdecl⟩ := exists_of_mem_forall₂ h.constructors hk
    obtain ⟨d, hd, hret⟩ := hdecl.ret
    rw [hret]
    exact (settled_of_declaredAs hd).1
  created_params k hk := by
    obtain ⟨decl, -, hdecl⟩ := exists_of_mem_forall₂ h.constructors hk
    exact settledParams_of_declaredAs hdecl.params
  receiver m hm q hq := by
    obtain ⟨decl, -, hdecl⟩ := exists_of_mem_forall₂ h.methods hm
    have hreceiver := hdecl.receiver
    rw [hq] at hreceiver
    obtain ⟨-, d, hd, rfl⟩ := hreceiver
    exact (settled_of_declaredAs hd).1
  params m hm := by
    obtain ⟨decl, -, hdecl⟩ := exists_of_mem_forall₂ h.methods hm
    exact settledParams_of_declaredAs hdecl.params
  returned m hm := by
    obtain ⟨decl, -, hdecl⟩ := exists_of_mem_forall₂ h.methods hm
    have hret := hdecl.ret
    unfold ReturnDeclaredAs at hret
    rw [hdecl.returns]
    cases hreturns : decl.returns with
    | none => intro hi; cases hi
    | some host =>
      rw [hreturns] at hret
      obtain ⟨d, hd, hq⟩ := hret
      rw [hq]
      exact (settled_of_declaredAs hd).1

/-- Every table is settled for the class under whose name it stands, also where several classes
share the name. -/
def SettledTables (cfg : Configuration) (tables : Tables) : Prop :=
  ∀ owner table, tables.get? owner = some table → SettledTable cfg owner table

theorem settledTables_of_within {cs : List ClassDecl} {tables : Tables}
    (h : Within Diagnostic.NotIllegal (resolveClasses (.ofConfiguration cfg) ∅ cs) tables) :
    SettledTables cfg tables := by
  intro owner table htable
  rcases exists_class_of_get? h htable with ⟨c, -, rfl, hdecl⟩ | hempty
  · exact settledTable_of_declaredAs hdecl
  · cases hempty

/-! ## Expressions -/

/-- The receiver and the variables are settled. -/
structure SettledScope (cfg : Configuration) (s : Scope) : Prop where
  receiver : ∀ q, s.receiver = some q → cfg.Settled (.declared s.location.className) q
  vars : s.VarsAre (SettledVar cfg)

theorem seenFrom_ret_of_immutable {σ : Signature} (h : σ.ret = .immutable)
    (r : Option Qualifier) : (σ.seenFrom r).ret = .immutable := by
  unfold Signature.seenFrom Signature.substituteStatic
  rw [h]
  split
  · exact h
  · cases r with
    | none => exact h
    | some q => rfl

theorem bind_ret_of_immutable {σ : Signature} (h : σ.ret = .immutable) (qs : List Qualifier) :
    (σ.bind qs).signature.ret = .immutable := by
  show Signature.ofPlaceholder _ σ.ret = _
  rw [h]
  rfl

/-- Whatever its parts are, an expression of a type whose values can never change is
`immutable`. -/
theorem settled_of_checkExpr {tables : Tables} {s : Scope} {e : Expr} {t : Typed}
    (htables : SettledTables cfg tables) (hs : SettledScope cfg s)
    (h : Within Diagnostic.NotIllegal (checkExpr ⟨.ofConfiguration cfg, tables⟩ s e) t) :
    cfg.Settled t.host t.qualifier := by
  cases e with
  | self =>
    obtain ⟨q, hq, rfl⟩ := within_self.1 h
    exact hs.receiver q hq
  | null =>
    obtain rfl := within_null.1 h
    intro hi
    cases hi
  | literal host =>
    obtain rfl := within_literal.1 h
    dsimp only
    rw [Policy.defaultQualifier_localVariable]
    exact cfg.settled_settled host cfg.defaultQualifier
  | var name =>
    obtain ⟨v, hv, rfl⟩ := within_var.1 h
    exact fun hi => (hs.vars name v hv hi).1
  | fieldRead receiver name =>
    obtain ⟨target, f, -, hf, rfl⟩ := within_fieldRead.1 h
    obtain ⟨owner, -, table, htable, hget⟩ := Tables.field_eq_ok.1 hf
    intro hi
    have hdecl := (htables owner table htable).field name f hget hi
    dsimp only [ResolvedField.readThrough, Field.viewedThrough]
    rw [hdecl]
    split <;> rfl
  | create owner text args =>
    obtain ⟨k, requested, qs, hk, -, hlegal, -, -, rfl⟩ := within_create.1 h
    obtain ⟨table, htable, hfind⟩ := Tables.constructor_eq_ok.1 hk
    exact settled_of_notIllegal
      ((htables owner table htable).created k (List.mem_of_find?_eq_some hfind)) hlegal
  | call receiver name args =>
    obtain ⟨target, owner, m, qs, -, -, hm, -, -, -, rfl⟩ := within_call.1 h
    obtain ⟨table, htable, hfind⟩ := Tables.method_eq_ok.1 hm
    intro hi
    exact seenFrom_ret_of_immutable
      ((htables owner table htable).returned m (List.mem_of_find?_eq_some hfind) hi) _
  | staticCall owner name args =>
    obtain ⟨m, qs, hm, -, -, rfl⟩ := within_staticCall.1 h
    obtain ⟨table, htable, hfind⟩ := Tables.method_eq_ok.1 hm
    intro hi
    exact bind_ret_of_immutable (seenFrom_ret_of_immutable
      ((htables owner table htable).returned m (List.mem_of_find?_eq_some hfind) hi) _) _
  | cast host text operand =>
    obtain ⟨inner, explicit, q, -, -, hlegal, hq, rfl⟩ := within_cast.1 h
    have hop := Policy.qualifierOf_operand cfg (Or.inl rfl) host explicit inner.qualifier
    obtain rfl := Except.ok.inj (hq.symm.trans hop)
    exact settled_of_notIllegal (cfg.settled_settled host inner.qualifier) hlegal
  | binary host lhs rhs =>
    obtain ⟨l, r, q, -, -, hq, rfl⟩ := within_binary.1 h
    have hop := Policy.qualifierOf_operand cfg (Or.inr rfl) host none (l.qualifier.join r.qualifier)
    obtain rfl := Except.ok.inj (hq.symm.trans hop)
    exact cfg.settled_settled host _

/-! ## Statements and bodies -/

theorem settledVar_of_assignVar {tables : Tables} {s : Scope} {v : Var} {value q : Qualifier}
    {P : Diagnostic → Prop} (hv : SettledVar cfg v)
    (h : Within P (assignVar ⟨.ofConfiguration cfg, tables⟩ s v.declared value) q) :
    SettledVar cfg ⟨v.declared, q⟩ := by
  intro hi
  obtain ⟨-, hdeclared⟩ := hv hi
  obtain ⟨required, hreq, hq⟩ := within_assignVar.1 h
  refine ⟨?_, hdeclared⟩
  cases he : v.declared.isExplicit with
  | true =>
    rw [if_pos he] at hq
    have hrequired := (Policy.qualifierOf_of_isExplicit _ he).1 hreq
    exact hq.2.trans (Option.some.inj (hrequired.symm.trans hdeclared))
  | false =>
    rw [if_neg (by rw [he]; decide)] at hq
    rw [hq]
    exact cfg.settled_settled _ value hi

theorem SettledScope.checkStmt {tables : Tables} {s s' : Scope} {stmt : Stmt}
    (hs : SettledScope cfg s)
    (h : Within Diagnostic.NotIllegal (checkStmt ⟨.ofConfiguration cfg, tables⟩ s stmt) s') :
    SettledScope cfg s' where
  receiver q hq := by
    have hsame := sameMember_of_checkStmt h
    rw [hsame.receiver] at hq
    rw [hsame.location]
    exact hs.receiver q hq
  vars := by
    refine Scope.VarsAre.checkStmt ?_ ?_ hs.vars h
    · intro host text d hd
      exact (settled_of_declaredAs hd).2
    · intro v e value q _ _ hv hq
      exact settledVar_of_assignVar hv hq

theorem SettledScope.checkBody {tables : Tables} {s s' : Scope} {body : List Stmt}
    (hs : SettledScope cfg s)
    (h : Within Diagnostic.NotIllegal (checkBody ⟨.ofConfiguration cfg, tables⟩ s body) s') :
    SettledScope cfg s' := by
  induction body generalizing s with
  | nil =>
    obtain rfl := within_checkBody_nil.1 h
    exact hs
  | cons stmt rest ih =>
    obtain ⟨next, hstmt, hrest⟩ := within_checkBody_cons.1 h
    exact ih (hs.checkStmt hstmt) hrest

theorem settledScope_of_startOf? {c : ClassDecl} {table : ClassTable}
    (htable : SettledTable cfg c.name table) {member : MemberIndex} {start : Scope}
    (h : startOf? c table member = some start) : SettledScope cfg start := by
  cases member with
  | constructor i =>
    obtain ⟨k, hk, rfl⟩ := Option.map_eq_some_iff.1 h
    have hmem := List.mem_of_getElem? hk
    refine ⟨fun q hq => ?_, fun x v hv => get?_bindParams (htable.created_params k hmem) hv⟩
    obtain rfl := Option.some.inj hq
    exact htable.created k hmem
  | method i =>
    obtain ⟨m, -, h⟩ := Option.bind_eq_some_iff.1 h
    obtain ⟨r, hr, rfl⟩ := Option.map_eq_some_iff.1 h
    have hmem := List.mem_of_getElem? hr
    exact ⟨fun q hq => htable.receiver r hmem q hq,
      fun x v hv => get?_bindParams (htable.params r hmem) hv⟩

end Checker

/-! ## Programs -/

open Checker

theorem Program.Evaluates.settled {cfg : Configuration} {p : Program} {r : Report}
    (h : p.check (.ofConfiguration cfg) = .ok r)
    (hr : ∀ x ∈ r.diagnostics, x.diagnostic.NotIllegal) {c : ClassDecl} {member : MemberIndex}
    {i : Nat} {e : Expr} {t : Typed} (he : p.Evaluates (.ofConfiguration cfg) c member i e t) :
    cfg.Settled t.host t.qualifier := by
  obtain ⟨tables, table, start, body, s, -, hfirst, htable, hstart, hbody, ht⟩ := he.within h hr
  have htables := settledTables_of_within hfirst
  have hscope := settledScope_of_startOf? (htables c.name table htable) hstart
  exact settled_of_checkExpr htables (hscope.checkBody hbody) ht

/-- In a run that reports no illegal annotation, every part of every statement is evaluated, and
whatever is evaluated to a type whose values can never change is `immutable`. -/
theorem every_evaluation_settled (cfg : Configuration) (p : Program) (r : Report)
    (h : p.check (.ofConfiguration cfg) = .ok r)
    (hr : ∀ x ∈ r.diagnostics,
      x.diagnostic.kind ≠ .typeInvalid ∧ x.diagnostic.kind ≠ .invalidCastQualifier) :
    (∀ c ∈ p.classes, ∀ member body i stmt e, c.body? member = some body →
      body[i]? = some stmt → stmt.Contains e →
      ∃ t, p.Evaluates (.ofConfiguration cfg) c member i e t) ∧
    ∀ c member i e t, p.Evaluates (.ofConfiguration cfg) c member i e t →
      cfg.isImplicitlyImmutable t.host = true → t.qualifier = .immutable := by
  constructor
  · intro c hc member body i stmt e hbody hstmt he
    exact Program.exists_evaluates h hc hbody hstmt he
  · intro c member i e t he
    exact he.settled h hr

/-- A configuration in which points can never change and everything else is `readonly`. -/
def pointConfiguration : Configuration where
  immutableTypes := .ofList ["Point"]
  aliases := ∅
  defaultQualifier := .readonly
  objectMethodDefaults := true

/-- The value of the method below: two points put together by an operator. -/
def pointValue : Expr :=
  .binary (.declared "Point") (.var "p") .self

/-- A point with a method that makes another point out of two, through a variable, a cast and an
operator. -/
def pointClass : ClassDecl where
  name := "Point"
  fields := [⟨"x", .primitive .int, none, false, false, false⟩]
  constructors := [⟨none, [⟨"x", .primitive .int, none⟩], [.fieldWrite .self "x" (.var "x")]⟩]
  methods := [
    { name := "plus", isStatic := false, receiverText := none
      params := [⟨"other", .declared "Point", none⟩]
      returns := some (.declared "Point"), returnText := some "@Immutable"
      body := [
        .localVar "p" (.declared "Point") none (some (.create "Point" none
          [.binary (.primitive .int) (.fieldRead .self "x") (.fieldRead (.var "other") "x")])),
        .assign "p" (.cast (.declared "Point") none .null),
        .exit (some pointValue)] }]

/-- The point that the method gives is `immutable`, and so is every other one that is evaluated;
what the report has to say is that the constructor cannot write the field of such an object. -/
theorem every_evaluation_settled_pointClass :
    ∃ r, (Program.mk [pointClass]).check (.ofConfiguration pointConfiguration) = .ok r ∧
      r.diagnostics.map (fun x => x.diagnostic.kind) = [.illegalWrite] ∧
      (Program.mk [pointClass]).Evaluates (.ofConfiguration pointConfiguration) pointClass
        (.method 0) 2 pointValue ⟨.declared "Point", .immutable⟩ := by
  have hkinds : ((Program.mk [pointClass]).check (.ofConfiguration pointConfiguration)).map
      (fun r => r.diagnostics.map fun x => x.diagnostic.kind) = .ok [.illegalWrite] := by
    decide +kernel
  cases hr : (Program.mk [pointClass]).check (.ofConfiguration pointConfiguration) with
  | error f => rw [hr] at hkinds; cases hkinds
  | ok r =>
    rw [hr] at hkinds
    have hkinds' : r.diagnostics.map (fun x => x.diagnostic.kind) = [.illegalWrite] :=
      Except.ok.inj hkinds
    have hlegal : ∀ x ∈ r.diagnostics,
        x.diagnostic.kind ≠ .typeInvalid ∧ x.diagnostic.kind ≠ .invalidCastQualifier := by
      intro x hx
      have hmem : x.diagnostic.kind ∈ r.diagnostics.map fun x => x.diagnostic.kind :=
        List.mem_map_of_mem hx
      rw [hkinds', List.mem_singleton] at hmem
      rw [hmem]
      decide
    obtain ⟨hall, himm⟩ := every_evaluation_settled pointConfiguration ⟨[pointClass]⟩ r hr hlegal
    obtain ⟨t, ht⟩ := hall pointClass List.mem_cons_self (.method 0) _ 2 _ pointValue rfl rfl
      ⟨_, List.mem_cons_self, .refl⟩
    have hhost : t.host = .declared "Point" := by
      obtain ⟨-, -, -, -, -, -, -, -, hvalue⟩ := ht
      have hrun : Within (fun _ => True)
          (checkExpr _ _ (.binary (.declared "Point") (.var "p") .self)) t := hvalue.within
      obtain ⟨l, r, q, -, -, -, rfl⟩ := within_binary.1 hrun
      rfl
    have hq : t.qualifier = .immutable := himm _ _ _ _ t ht (by rw [hhost]; decide)
    obtain ⟨host, q⟩ := t
    obtain rfl : host = .declared "Point" := hhost
    obtain rfl : q = .immutable := hq
    exact ⟨r, rfl, hkinds', ht⟩

end Mutability
