import Mutability.Proofs.Concrete

/-!
# The placeholder of static calls

No table and no scope of a run has a placeholder: the invariant (`ConcreteTables`, `ConcreteScope`)
comes from the declarations and is carried through every statement, as long as no call leaks one.

A call in the static form resolves the placeholder before its arguments are looked at
(`Calls.eq_instantiate`). A call through an instance can select a static method too, and leaves the
placeholder as it is (`Calls.eq_substituteStatic`): it is exactly there that one escapes
(`placeholder_escapes_iff`).
-/

namespace Mutability

namespace Checker

/-! ## Calls -/

/-- The call `e` selects the method `m` and has the arguments `qs`; `σ` is the signature against
which they are checked and from which the result is taken. -/
inductive Calls (env : Env) (s : Scope) :
    Expr → ResolvedMethod → List Qualifier → Signature → Prop
  | onInstance {receiver : Expr} {target : Typed} {owner name : String} {args : List Expr}
      {m : ResolvedMethod} {qs : List Qualifier} {d₁ d₂ : Report} :
      Yields (checkExpr env s receiver) target d₁ → target.host = .declared owner →
      env.tables.method owner name args.length = .ok m → Yields (checkArgs env s args) qs d₂ →
      Calls env s (.call receiver name args) m qs (m.signature.seenFrom (some target.qualifier))
  | onClass {owner name : String} {args : List Expr} {m : ResolvedMethod} {qs : List Qualifier}
      {d : Report} :
      env.tables.method owner name args.length = .ok m → Yields (checkArgs env s args) qs d →
      Calls env s (.staticCall owner name args) m qs
        ((m.signature.seenFrom none).bind qs).signature

/-- The expression `e` checks the arguments `qs` against these parameters. -/
inductive ChecksArguments (env : Env) (s : Scope) :
    Expr → List Qualifier → List Qualifier → Prop
  | create {owner : String} {text : Option String} {args : List Expr} {k : ResolvedConstructor}
      {requested : Option Qualifier} {qs : List Qualifier} {d : Report} :
      env.tables.constructor owner args.length = .ok k →
      env.policy.resolve? text = .ok requested → Yields (checkArgs env s args) qs d →
      ChecksArguments env s (.create owner text args) qs
        (k.params.map fun p => Viewpoint.adaptInvocation (requested.getD k.ret)
          p.declared.qualifier)
  | call {e : Expr} {m : ResolvedMethod} {qs : List Qualifier} {σ : Signature} :
      Calls env s e m qs σ → ChecksArguments env s e qs σ.params

/-- The expression has a part that calls a static method with a polymorphic return through an
instance. -/
def Leaks (env : Env) (s : Scope) (e : Expr) : Prop :=
  ∃ receiver name args m qs σ, (Expr.call receiver name args).PartOf e ∧
    Calls env s (.call receiver name args) m qs σ ∧
    m.signature.isStatic = true ∧ m.signature.ret = .polyMutable

theorem Leaks.of_child {env : Env} {s : Scope} {c e : Expr} (hc : c ∈ e.children)
    (h : Leaks env s c) : Leaks env s e := by
  obtain ⟨receiver, name, args, m, qs, σ, hpart, hcall⟩ := h
  exact ⟨receiver, name, args, m, qs, σ, .child hc hpart, hcall⟩

theorem exists_calls_instance {P : Diagnostic → Prop} {env : Env} {s : Scope} {receiver : Expr}
    {name : String} {args : List Expr} {t : Typed}
    (h : Within P (checkExpr env s (.call receiver name args)) t) :
    ∃ m qs σ, Calls env s (.call receiver name args) m qs σ ∧ t.qualifier = σ.ret := by
  obtain ⟨target, owner, m, qs, ⟨d₁, htarget, -⟩, howner, hm, ⟨d₂, hqs, -⟩, -, -, rfl⟩ :=
    within_call.1 h
  exact ⟨m, qs, _, .onInstance htarget howner hm hqs, rfl⟩

theorem exists_calls_static {P : Diagnostic → Prop} {env : Env} {s : Scope}
    {owner name : String} {args : List Expr} {t : Typed}
    (h : Within P (checkExpr env s (.staticCall owner name args)) t) :
    ∃ m qs σ, Calls env s (.staticCall owner name args) m qs σ ∧ t.qualifier = σ.ret := by
  obtain ⟨m, qs, hm, ⟨d, hqs, -⟩, -, rfl⟩ := within_staticCall.1 h
  exact ⟨m, qs, _, .onClass hm hqs, rfl⟩

theorem Calls.ret_eq {P : Diagnostic → Prop} {env : Env} {s : Scope} {e : Expr}
    {m : ResolvedMethod} {qs : List Qualifier} {σ : Signature} (hcall : Calls env s e m qs σ)
    {t : Typed} (h : Within P (checkExpr env s e) t) : t.qualifier = σ.ret := by
  cases hcall with
  | onInstance htarget howner hm hqs =>
    obtain ⟨target', owner', m', qs', htarget', howner', hm', -, -, -, rfl⟩ := within_call.1 h
    obtain rfl := htarget'.eq_of_yields htarget
    obtain rfl := HostType.declared.inj (howner.symm.trans howner')
    obtain rfl := Except.ok.inj (hm.symm.trans hm')
    rfl
  | onClass hm hqs =>
    obtain ⟨m', qs', hm', hqs', -, rfl⟩ := within_staticCall.1 h
    obtain rfl := Except.ok.inj (hm.symm.trans hm')
    obtain rfl := hqs'.eq_of_yields hqs
    rfl

/-- A static method that is called through an instance is seen with its placeholders. -/
theorem Calls.eq_substituteStatic {env : Env} {s : Scope} {receiver : Expr} {name : String}
    {args : List Expr} {m : ResolvedMethod} {qs : List Qualifier} {σ : Signature}
    (hcall : Calls env s (.call receiver name args) m qs σ)
    (hstatic : m.signature.isStatic = true) :
    σ = m.signature.substituteStatic := by
  cases hcall with
  | onInstance htarget howner hm hqs => rw [Signature.seenFrom, if_pos hstatic]

/-! ## Tables -/

variable {cfg : Configuration}

/-- The variable has no placeholder, now or as it is declared. -/
def ConcreteVar (v : Var) : Prop :=
  v.current ≠ .substitutable ∧ v.declared.Concrete

/-- No member of the table has a placeholder. -/
structure ConcreteTable (table : ClassTable) : Prop where
  field : ∀ name f, table.fields.get? name = some f → f.field.declared ≠ .substitutable
  created : ∀ k ∈ table.constructors, k.ret ≠ .substitutable
  created_params : ∀ k ∈ table.constructors, ∀ r ∈ k.params,
    ConcreteVar ⟨r.declared.position, r.declared.qualifier⟩
  signature : ∀ m ∈ table.methods, m.signature.Concrete
  params : ∀ m ∈ table.methods, ∀ r ∈ m.params,
    ConcreteVar ⟨r.declared.position, r.declared.qualifier⟩

section Tables

variable (hcfg : cfg.defaultQualifier ≠ .substitutable)

include hcfg

theorem concreteVar_of_declaredAs {kind : Position.Kind} {host : HostType} {text : Option String}
    {d : Declared} (h : DeclaredAs Diagnostic.NotIllegal (.ofConfiguration cfg) kind host text d) :
    ConcreteVar ⟨d.position, d.qualifier⟩ := by
  obtain ⟨explicit, -, hlegal, hq, hpos⟩ := h
  have hwritten : (Position.written kind host explicit).Concrete := Position.concrete_written hlegal
  refine ⟨Policy.ne_substitutable_of_qualifierOf hcfg hwritten hq, ?_⟩
  show d.position.Concrete
  rw [hpos]
  exact hwritten.annotate hcfg

theorem concreteVar_of_paramsDeclaredAs {method : String} {index : Nat} {ps : List ParamDecl}
    {rs : List ResolvedParam}
    (h : ParamsDeclaredAs Diagnostic.NotIllegal (.ofConfiguration cfg) method index ps rs) :
    ∀ r ∈ rs, ConcreteVar ⟨r.declared.position, r.declared.qualifier⟩ := by
  intro r hr
  obtain ⟨i, p, -, hd⟩ := h.declaredAs hr
  exact concreteVar_of_declaredAs hcfg hd

theorem concrete_of_methodDeclaredAs {c : ClassDecl} {m : MethodDecl} {resolved : ResolvedMethod}
    (h : MethodDeclaredAs Diagnostic.NotIllegal (.ofConfiguration cfg) c m resolved) :
    resolved.signature.Concrete := by
  rw [Signature.concrete_iff]
  refine ⟨?_, ?_, ?_⟩
  · have hret := h.ret
    unfold ReturnDeclaredAs at hret
    cases hreturns : m.returns with
    | none =>
      rw [hreturns] at hret
      rw [hret]
      decide
    | some host =>
      rw [hreturns] at hret
      obtain ⟨d, hd, hq⟩ := hret
      rw [hq]
      exact (concreteVar_of_declaredAs hcfg hd).1
  · intro q hq
    have hreceiver := h.receiver
    rw [hq] at hreceiver
    obtain ⟨-, d, hd, rfl⟩ := hreceiver
    exact (concreteVar_of_declaredAs hcfg hd).1
  · intro q hq
    rw [h.qualifiers] at hq
    obtain ⟨r, hr, rfl⟩ := List.mem_map.1 hq
    exact (concreteVar_of_paramsDeclaredAs hcfg h.params r hr).1

theorem concreteTable_of_declaredAs {c : ClassDecl} {table : ClassTable}
    (h : ClassDeclaredAs Diagnostic.NotIllegal (.ofConfiguration cfg) c table) :
    ConcreteTable table where
  field name f hf := by
    rcases h.field name with ⟨-, hnone⟩ | ⟨decl, f', -, hf', d, hd, rfl⟩
    · rw [hnone] at hf; cases hf
    · obtain rfl := Option.some.inj (hf'.symm.trans hf)
      have hq := (concreteVar_of_declaredAs hcfg hd).1
      show (if d.qualifier = .polyMutable then Qualifier.receiverDependant else d.qualifier) ≠ _
      split
      · decide
      · exact hq
  created k hk := by
    obtain ⟨decl, -, hdecl⟩ := exists_of_mem_forall₂ h.constructors hk
    obtain ⟨d, hd, hret⟩ := hdecl.ret
    rw [hret]
    exact (concreteVar_of_declaredAs hcfg hd).1
  created_params k hk := by
    obtain ⟨decl, -, hdecl⟩ := exists_of_mem_forall₂ h.constructors hk
    exact concreteVar_of_paramsDeclaredAs hcfg hdecl.params
  signature m hm := by
    obtain ⟨decl, -, hdecl⟩ := exists_of_mem_forall₂ h.methods hm
    exact concrete_of_methodDeclaredAs hcfg hdecl
  params m hm := by
    obtain ⟨decl, -, hdecl⟩ := exists_of_mem_forall₂ h.methods hm
    exact concreteVar_of_paramsDeclaredAs hcfg hdecl.params

end Tables

/-- No table has a placeholder. -/
def ConcreteTables (tables : Tables) : Prop :=
  ∀ owner table, tables.get? owner = some table → ConcreteTable table

theorem concreteTables_of_within (hcfg : cfg.defaultQualifier ≠ .substitutable)
    {cs : List ClassDecl} {tables : Tables}
    (h : Within Diagnostic.NotIllegal (resolveClasses (.ofConfiguration cfg) ∅ cs) tables) :
    ConcreteTables tables := by
  intro owner table htable
  rcases exists_class_of_get? h htable with ⟨c, -, -, hdecl⟩ | hempty
  · exact concreteTable_of_declaredAs hcfg hdecl
  · cases hempty

theorem ConcreteTables.method {tables : Tables} (h : ConcreteTables tables) {owner name : String}
    {arity : Nat} {m : ResolvedMethod} (hm : tables.method owner name arity = .ok m) :
    m.signature.Concrete := by
  obtain ⟨table, htable, hfind⟩ := Tables.method_eq_ok.1 hm
  exact (h owner table htable).signature m (List.mem_of_find?_eq_some hfind)

/-- A static method that is called in the static form is seen without a placeholder. -/
theorem Calls.eq_instantiate {env : Env} {s : Scope} {owner name : String} {args : List Expr}
    {m : ResolvedMethod} {qs : List Qualifier} {σ : Signature}
    (hcall : Calls env s (.staticCall owner name args) m qs σ) (htables : ConcreteTables env.tables)
    (hstatic : m.signature.isStatic = true) : σ = m.signature.instantiate qs := by
  cases hcall with
  | onClass hm hqs => exact Signature.bind_seenFrom_none (htables.method hm) hstatic qs

/-! ## Expressions -/

/-- Neither the receiver nor a variable has a placeholder. -/
structure ConcreteScope (s : Scope) : Prop where
  receiver : ∀ q, s.receiver = some q → q ≠ .substitutable
  vars : s.VarsAre ConcreteVar

section Expressions

variable {tables : Tables} {s : Scope}

theorem concrete_of_checkArgs {P : Diagnostic → Prop} {env : Env} {args : List Expr}
    {qs : List Qualifier} (h : Within P (checkArgs env s args) qs)
    (hargs : ∀ a ∈ args, ∀ t, Within P (checkExpr env s a) t → t.qualifier ≠ .substitutable) :
    ∀ q ∈ qs, q ≠ .substitutable := by
  intro q hq
  obtain ⟨a, ha, t, ht, rfl⟩ := exists_of_mem_forall₂ (within_checkArgs.1 h) hq
  exact hargs a ha t ht

/-- Without a call that leaks one, no placeholder comes out of an expression. -/
theorem concrete_of_checkExpr (hcfg : cfg.defaultQualifier ≠ .substitutable)
    (htables : ConcreteTables tables) (hs : ConcreteScope s) {e : Expr} {t : Typed}
    (hleak : ¬ Leaks ⟨.ofConfiguration cfg, tables⟩ s e)
    (h : Within Diagnostic.NotIllegal (checkExpr ⟨.ofConfiguration cfg, tables⟩ s e) t) :
    t.qualifier ≠ .substitutable := by
  induction e using Expr.inductionOn generalizing t with
  | self =>
    obtain ⟨q, hq, rfl⟩ := within_self.1 h
    exact hs.receiver q hq
  | null =>
    obtain rfl := within_null.1 h
    exact Policy.defaultQualifier_ne_substitutable hcfg _ _
  | literal host =>
    obtain rfl := within_literal.1 h
    exact Policy.defaultQualifier_ne_substitutable hcfg _ _
  | var name =>
    obtain ⟨v, hv, rfl⟩ := within_var.1 h
    exact (hs.vars name v hv).1
  | fieldRead receiver name ih =>
    obtain ⟨target, f, htarget, hf, rfl⟩ := within_fieldRead.1 h
    obtain ⟨owner, -, table, htable, hget⟩ := Tables.field_eq_ok.1 hf
    have hdecl := (htables owner table htable).field name f hget
    have hq := ih (fun hl => hleak (hl.of_child List.mem_cons_self)) htarget
    dsimp only [ResolvedField.readThrough]
    split
    · exact hdecl
    · exact Viewpoint.adapt_ne_substitutable hq hdecl
  | create owner text args ih =>
    obtain ⟨k, requested, qs, hk, -, hlegal, -, -, rfl⟩ := within_create.1 h
    obtain ⟨table, htable, hfind⟩ := Tables.constructor_eq_ok.1 hk
    cases requested with
    | none => exact (htables owner table htable).created k (List.mem_of_find?_eq_some hfind)
    | some q => exact Position.ne_substitutable_of_notIllegal hlegal
  | call receiver name args ihr ih =>
    obtain ⟨target, owner, m, qs, htarget, howner, hm, hqs, -, -, rfl⟩ := within_call.1 h
    have hq := ihr (fun hl => hleak (hl.of_child List.mem_cons_self)) htarget
    obtain ⟨d₁, hd₁, -⟩ := htarget
    obtain ⟨d₂, hd₂, -⟩ := hqs
    -- The call itself is a part of the expression, and it does not leak.
    have hstatic : ¬ (m.signature.isStatic = true ∧ m.signature.ret = .polyMutable) := by
      intro hboth
      exact hleak ⟨receiver, name, args, m, qs, _, .refl, .onInstance hd₁ howner hm hd₂, hboth⟩
    have hσ := (htables.method hm).seenFrom_some hq hstatic
    exact (Signature.concrete_iff.1 hσ).1
  | staticCall owner name args ih =>
    obtain ⟨m, qs, hm, hqs, -, rfl⟩ := within_staticCall.1 h
    have hargs := concrete_of_checkArgs hqs fun a ha t =>
      ih a ha (fun hl => hleak (hl.of_child ha))
    exact (Signature.concrete_iff.1 (Signature.concrete_bind _ hargs)).1
  | cast host text operand ih =>
    obtain ⟨inner, explicit, q, hinner, -, hlegal, hq, rfl⟩ := within_cast.1 h
    have hop := ih (fun hl => hleak (hl.of_child List.mem_cons_self)) hinner
    have hwritten := Position.concrete_written hlegal
    exact Policy.ne_substitutable_of_qualifierOf hcfg (hwritten.fill hop _) hq
  | binary host lhs rhs ihl ihr =>
    obtain ⟨l, r, q, hl, hr, hq, rfl⟩ := within_binary.1 h
    have hleft := ihl (fun hl => hleak (hl.of_child List.mem_cons_self)) hl
    have hright := ihr
      (fun hl => hleak (hl.of_child (List.mem_cons_of_mem lhs List.mem_cons_self))) hr
    have hbare : (Position.bare .binary host).Concrete := by
      simp [Position.Concrete, Position.qualifier?, Position.bare]
    exact Policy.ne_substitutable_of_qualifierOf hcfg
      (hbare.fill (Qualifier.join_ne_substitutable hleft hright) _) hq

/-- Without a call that leaks a placeholder, no argument is checked against one. -/
theorem concrete_of_checksArguments (hcfg : cfg.defaultQualifier ≠ .substitutable)
    (htables : ConcreteTables tables) (hs : ConcreteScope s) {e : Expr} {t : Typed}
    (hleak : ¬ Leaks ⟨.ofConfiguration cfg, tables⟩ s e)
    (h : Within Diagnostic.NotIllegal (checkExpr ⟨.ofConfiguration cfg, tables⟩ s e) t)
    {qs params : List Qualifier}
    (hchecks : ChecksArguments ⟨.ofConfiguration cfg, tables⟩ s e qs params) :
    ∀ q ∈ params, q ≠ .substitutable := by
  cases hchecks with
  | @create owner text args k requested qs d hk hreq hqs =>
    obtain ⟨table, htable, hfind⟩ := Tables.constructor_eq_ok.1 hk
    have hmem := List.mem_of_find?_eq_some hfind
    -- The object is given the qualifier of the expression, which is no placeholder.
    have hcreated : requested.getD k.ret ≠ .substitutable := by
      obtain ⟨k', requested', qs', hk', hreq', -, -, -, ht⟩ := within_create.1 h
      obtain rfl := Except.ok.inj (hk.symm.trans hk')
      obtain rfl := Except.ok.inj (hreq.symm.trans hreq')
      have hq := concrete_of_checkExpr hcfg htables hs hleak h
      rw [ht] at hq
      exact hq
    intro q hq
    obtain ⟨r, hr, rfl⟩ := List.mem_map.1 hq
    have hparam := ((htables owner table htable).created_params k hmem r hr).1
    exact Viewpoint.adaptInvocation_ne_substitutable hcreated hparam
  | @call e m qs σ hcall =>
    cases hcall with
    | @onInstance receiver target owner name args m qs d₁ d₂ htarget howner hm hqs =>
      obtain ⟨target', owner', m', qs', htarget', -⟩ := within_call.1 h
      obtain rfl := htarget'.eq_of_yields htarget
      have hq := concrete_of_checkExpr hcfg htables hs
        (fun hl => hleak (hl.of_child List.mem_cons_self)) htarget'
      have hstatic : ¬ (m.signature.isStatic = true ∧ m.signature.ret = .polyMutable) := by
        intro hboth
        exact hleak
          ⟨receiver, name, args, m, qs, _, .refl, .onInstance htarget howner hm hqs, hboth⟩
      have hσ := (htables.method hm).seenFrom_some hq hstatic
      exact (Signature.concrete_iff.1 hσ).2.2
    | @onClass owner name args m qs d hm hqs =>
      obtain ⟨m', qs', -, hqs', -⟩ := within_staticCall.1 h
      obtain rfl := hqs'.eq_of_yields hqs
      have hargs := concrete_of_checkArgs hqs' fun a ha t ht =>
        concrete_of_checkExpr hcfg htables hs (fun hl => hleak (hl.of_child ha)) ht
      exact (Signature.concrete_iff.1 (Signature.concrete_bind _ hargs)).2.2

end Expressions

/-! ## Statements and bodies -/

section Bodies

variable {tables : Tables} {s s' : Scope}

theorem concreteVar_of_assignVar {P : Diagnostic → Prop} {v : Var} {value q : Qualifier}
    (hcfg : cfg.defaultQualifier ≠ .substitutable) (hv : ConcreteVar v)
    (hvalue : value ≠ .substitutable)
    (h : Within P (assignVar ⟨.ofConfiguration cfg, tables⟩ s v.declared value) q) :
    ConcreteVar ⟨v.declared, q⟩ := by
  obtain ⟨required, hreq, hq⟩ := within_assignVar.1 h
  refine ⟨?_, hv.2⟩
  show q ≠ _
  by_cases he : v.declared.isExplicit = true
  · rw [if_pos he] at hq
    rw [hq.2]
    exact Policy.ne_substitutable_of_qualifierOf hcfg hv.2 hreq
  · rw [if_neg he] at hq
    rw [hq, Configuration.settled]
    split
    · decide
    · exact hvalue

theorem mem_exprs_of_assigned? {stmt : Stmt} {e : Expr} (h : assigned? stmt = some e) :
    e ∈ stmt.exprs := by
  cases stmt with
  | localVar name host text init =>
    have hinit : init = some e := h
    rw [hinit]
    exact List.mem_cons_self
  | assign target value =>
    have hvalue : value = e := Option.some.inj h
    rw [hvalue]
    exact List.mem_cons_self
  | fieldWrite receiver name value => cases h
  | eval value => cases h
  | exit value => cases h

/-- A statement without a call that leaks a placeholder leaves none in the scope. -/
theorem ConcreteScope.checkStmt (hcfg : cfg.defaultQualifier ≠ .substitutable)
    (htables : ConcreteTables tables) (hs : ConcreteScope s) {stmt : Stmt}
    (hleak : ∀ e ∈ stmt.exprs, ¬ Leaks ⟨.ofConfiguration cfg, tables⟩ s e)
    (h : Within Diagnostic.NotIllegal (checkStmt ⟨.ofConfiguration cfg, tables⟩ s stmt) s') :
    ConcreteScope s' where
  receiver q hq := by
    rw [(sameMember_of_checkStmt h).receiver] at hq
    exact hs.receiver q hq
  vars := by
    refine Scope.VarsAre.checkStmt ?_ ?_ hs.vars h
    · intro host text d hd
      exact concreteVar_of_declaredAs hcfg hd
    · intro v e value q he hvalue hv hq
      have hconcrete := concrete_of_checkExpr hcfg htables hs
        (hleak e (mem_exprs_of_assigned? he)) hvalue
      exact concreteVar_of_assignVar hcfg hv hconcrete hq

/-- A body that leaks no placeholder at any of its statements leaves none in the scope. -/
theorem ConcreteScope.checkBody (hcfg : cfg.defaultQualifier ≠ .substitutable)
    (htables : ConcreteTables tables) (hs : ConcreteScope s) {body : List Stmt}
    (hleak : ∀ (i : Nat) stmt before, body[i]? = some stmt → Within Diagnostic.NotIllegal
      (Checker.checkBody ⟨.ofConfiguration cfg, tables⟩ s (body.take i)) before →
      ∀ e ∈ stmt.exprs, ¬ Leaks ⟨.ofConfiguration cfg, tables⟩ before e)
    (h : Within Diagnostic.NotIllegal
      (Checker.checkBody ⟨.ofConfiguration cfg, tables⟩ s body) s') : ConcreteScope s' := by
  induction body generalizing s with
  | nil =>
    obtain rfl := within_checkBody_nil.1 h
    exact hs
  | cons stmt rest ih =>
    obtain ⟨next, hstmt, hrest⟩ := within_checkBody_cons.1 h
    have hfirst := hleak 0 stmt s rfl (within_checkBody_nil.2 rfl)
    refine ih (hs.checkStmt hcfg htables hfirst hstmt) ?_ hrest
    intro i stmt' before hi hbefore
    exact hleak (i + 1) stmt' before hi (within_checkBody_cons.2 ⟨next, hstmt, hbefore⟩)

theorem concreteScope_of_startOf? {c : ClassDecl} {table : ClassTable}
    (htable : ConcreteTable table) {member : MemberIndex} {start : Scope}
    (h : startOf? c table member = some start) : ConcreteScope start := by
  cases member with
  | constructor i =>
    obtain ⟨k, hk, rfl⟩ := Option.map_eq_some_iff.1 h
    have hmem := List.mem_of_getElem? hk
    refine ⟨fun q hq => ?_, fun x v hv => get?_bindParams (htable.created_params k hmem) hv⟩
    obtain rfl := Option.some.inj hq
    exact htable.created k hmem
  | method i =>
    obtain ⟨m, -, h⟩ := Option.bind_eq_some_iff.1 h
    obtain ⟨r, hr, rfl⟩ := Option.map_eq_some_iff.1 h
    have hmem := List.mem_of_getElem? hr
    have hσ := Signature.concrete_iff.1 (htable.signature r hmem)
    exact ⟨hσ.2.1, fun x v hv => get?_bindParams (htable.params r hmem) hv⟩

end Bodies

end Checker

/-! ## Programs -/

open Checker

namespace Program

/-- In the run of a program, the call `e` selects the method `m` and has the arguments `qs`; `σ` is
the signature against which they are checked and from which the result is taken. -/
def Calls (π : Policy) (p : Program) (c : ClassDecl) (member : MemberIndex) (i : Nat) (e : Expr)
    (m : ResolvedMethod) (qs : List Qualifier) (σ : Signature) : Prop :=
  ∃ tables stmt s, p.Reaches π c member i tables stmt s ∧ stmt.Contains e ∧
    Checker.Calls ⟨π, tables⟩ s e m qs σ

/-- In the run of a program, the expression `e` checks the arguments `qs` against `params`. -/
def ChecksArguments (π : Policy) (p : Program) (c : ClassDecl) (member : MemberIndex) (i : Nat)
    (e : Expr) (qs params : List Qualifier) : Prop :=
  ∃ tables stmt s, p.Reaches π c member i tables stmt s ∧ stmt.Contains e ∧
    Checker.ChecksArguments ⟨π, tables⟩ s e qs params

/-- In the run of a program, a static method with a polymorphic return is called through an
instance. -/
def Leaks (π : Policy) (p : Program) : Prop :=
  ∃ c member i receiver name args m qs σ,
    p.Calls π c member i (.call receiver name args) m qs σ ∧
    m.signature.isStatic = true ∧ m.signature.ret = .polyMutable

variable {cfg : Configuration} {p : Program} {r : Report} {c : ClassDecl} {member : MemberIndex}
  {i : Nat} {tables : Tables} {stmt : Stmt} {s : Scope}

theorem Reaches.exists_within {P : Diagnostic → Prop} {π : Policy} (h : p.check π = .ok r)
    (hr : ∀ x ∈ r.diagnostics, P x.diagnostic) (hs : p.Reaches π c member i tables stmt s)
    {e : Expr} (he : stmt.Contains e) : ∃ t, Within P (checkExpr ⟨π, tables⟩ s e) t := by
  obtain ⟨table, start, body, after, -, -, -, -, -, -, hafter⟩ := hs.within h hr
  exact exists_within_of_contains hafter he

theorem leaks_of_contains {π : Policy} (hs : p.Reaches π c member i tables stmt s) {e : Expr}
    (he : stmt.Contains e) (h : Checker.Leaks ⟨π, tables⟩ s e) : p.Leaks π := by
  obtain ⟨receiver, name, args, m, qs, σ, hpart, hcall, hm⟩ := h
  obtain ⟨e', he', hpart'⟩ := he
  have hcontains : stmt.Contains (.call receiver name args) := ⟨e', he', hpart.trans hpart'⟩
  exact ⟨c, member, i, receiver, name, args, m, qs, σ, ⟨tables, stmt, s, hs, hcontains, hcall⟩, hm⟩

/-- In a run that leaks no placeholder, every statement is reached without one. -/
theorem Reaches.concrete (hcfg : cfg.defaultQualifier ≠ .substitutable)
    (h : p.check (.ofConfiguration cfg) = .ok r)
    (hr : ∀ x ∈ r.diagnostics, x.diagnostic.NotIllegal) (hleak : ¬ p.Leaks (.ofConfiguration cfg))
    (hs : p.Reaches (.ofConfiguration cfg) c member i tables stmt s) :
    ConcreteTables tables ∧ ConcreteScope s := by
  obtain ⟨table, start, body, after, hfirst, htable, hstart, hbody, hstmt, hbefore, -⟩ :=
    hs.within h hr
  have htables := concreteTables_of_within hcfg hfirst
  refine ⟨htables, ?_⟩
  have hstart' := concreteScope_of_startOf? (htables c.name table htable) hstart
  refine hstart'.checkBody hcfg htables ?_ hbefore
  intro j stmt' before hj htake e he hleak'
  -- The statements before this one are reached in the same run.
  have hlt : j < i := by
    have hlen := (List.getElem?_eq_some_iff.1 hj).1
    rw [List.length_take] at hlen
    omega
  rw [List.getElem?_take_of_lt hlt] at hj
  rw [List.take_take, Nat.min_eq_left (by omega)] at htake
  obtain ⟨hc, hfirst', -⟩ := hs
  obtain ⟨d, hd, -⟩ := htake
  have hreach : p.Reaches (.ofConfiguration cfg) c member j tables stmt' before :=
    ⟨hc, hfirst', htable, hstart, hbody, hj, hd⟩
  exact hleak (leaks_of_contains hreach ⟨e, he, .refl⟩ hleak')

theorem Evaluates.concrete (hcfg : cfg.defaultQualifier ≠ .substitutable)
    (h : p.check (.ofConfiguration cfg) = .ok r)
    (hr : ∀ x ∈ r.diagnostics, x.diagnostic.NotIllegal) (hleak : ¬ p.Leaks (.ofConfiguration cfg))
    {e : Expr} {t : Typed} (he : p.Evaluates (.ofConfiguration cfg) c member i e t) :
    t.qualifier ≠ .substitutable := by
  obtain ⟨tables, stmt, s, d, hs, hpart, ht⟩ := evaluates_iff.1 he
  obtain ⟨htables, hscope⟩ := hs.concrete hcfg h hr hleak
  obtain ⟨t', ht'⟩ := hs.exists_within h hr hpart
  obtain rfl := ht'.eq_of_yields ht
  exact concrete_of_checkExpr hcfg htables hscope
    (fun hl => hleak (leaks_of_contains hs hpart hl)) ht'

theorem ChecksArguments.concrete (hcfg : cfg.defaultQualifier ≠ .substitutable)
    (h : p.check (.ofConfiguration cfg) = .ok r)
    (hr : ∀ x ∈ r.diagnostics, x.diagnostic.NotIllegal) (hleak : ¬ p.Leaks (.ofConfiguration cfg))
    {e : Expr} {qs params : List Qualifier}
    (he : p.ChecksArguments (.ofConfiguration cfg) c member i e qs params) :
    ∀ q ∈ params, q ≠ .substitutable := by
  obtain ⟨tables, stmt, s, hs, hpart, hchecks⟩ := he
  obtain ⟨htables, hscope⟩ := hs.concrete hcfg h hr hleak
  obtain ⟨t, ht⟩ := hs.exists_within h hr hpart
  exact concrete_of_checksArguments hcfg htables hscope
    (fun hl => hleak (leaks_of_contains hs hpart hl)) ht hchecks

theorem Leaks.exists_evaluates {π : Policy} (h : p.check π = .ok r) (hleak : p.Leaks π) :
    ∃ c member i e t, p.Evaluates π c member i e t ∧ t.qualifier = .substitutable := by
  obtain ⟨c, member, i, receiver, name, args, m, qs, σ, ⟨tables, stmt, s, hs, hpart, hcall⟩,
    hstatic, hret⟩ := hleak
  obtain ⟨t, ht⟩ := hs.exists_within (P := fun _ => True) h (fun _ _ => trivial) hpart
  refine ⟨c, member, i, .call receiver name args, t, ?_, ?_⟩
  · obtain ⟨d, hd, -⟩ := ht
    exact evaluates_iff.2 ⟨tables, stmt, s, d, hs, hpart, hd⟩
  · rw [hcall.ret_eq ht, hcall.eq_substituteStatic hstatic, Signature.substituteStatic, if_pos hret]

theorem Evaluates.exists_calls_static (hcfg : cfg.defaultQualifier ≠ .substitutable)
    (h : p.check (.ofConfiguration cfg) = .ok r)
    (hr : ∀ x ∈ r.diagnostics, x.diagnostic.NotIllegal) {owner name : String} {args : List Expr}
    {t : Typed}
    (he : p.Evaluates (.ofConfiguration cfg) c member i (.staticCall owner name args) t) :
    ∃ m qs σ, p.Calls (.ofConfiguration cfg) c member i (.staticCall owner name args) m qs σ ∧
      t.qualifier = σ.ret ∧ (m.signature.isStatic = true → σ = m.signature.instantiate qs) := by
  obtain ⟨tables, stmt, s, d, hs, hpart, ht⟩ := evaluates_iff.1 he
  obtain ⟨m, qs, σ, hcall, hret⟩ := Checker.exists_calls_static ht.within
  refine ⟨m, qs, σ, ⟨tables, stmt, s, hs, hpart, hcall⟩, hret, fun hstatic => ?_⟩
  obtain ⟨table, start, body, after, hfirst, -⟩ := hs.within h hr
  exact hcall.eq_instantiate (concreteTables_of_within hcfg hfirst) hstatic

theorem Evaluates.exists_calls_instance {π : Policy} {receiver : Expr} {name : String}
    {args : List Expr} {t : Typed}
    (he : p.Evaluates π c member i (.call receiver name args) t) :
    ∃ m qs σ, p.Calls π c member i (.call receiver name args) m qs σ ∧ t.qualifier = σ.ret ∧
      (m.signature.isStatic = true → σ = m.signature.substituteStatic) := by
  obtain ⟨tables, stmt, s, d, hs, hpart, ht⟩ := evaluates_iff.1 he
  obtain ⟨m, qs, σ, hcall, hret⟩ := Checker.exists_calls_instance ht.within
  exact ⟨m, qs, σ, ⟨tables, stmt, s, hs, hpart, hcall⟩, hret, hcall.eq_substituteStatic⟩

end Program

/-- In a run that reports no illegal annotation, a placeholder comes out of an evaluation exactly if
a static method with a polymorphic return is called through an instance, and only then can an
argument be checked against one. A call in the static form takes the join of the arguments for it;
a call through an instance leaves it as it is. -/
theorem placeholder_escapes_iff (cfg : Configuration)
    (hcfg : cfg.defaultQualifier ≠ .substitutable) (p : Program) (r : Report)
    (h : p.check (.ofConfiguration cfg) = .ok r)
    (hr : ∀ x ∈ r.diagnostics,
      x.diagnostic.kind ≠ .typeInvalid ∧ x.diagnostic.kind ≠ .invalidCastQualifier) :
    ((∃ c member i e t, p.Evaluates (.ofConfiguration cfg) c member i e t ∧
        t.qualifier = .substitutable) ↔ p.Leaks (.ofConfiguration cfg)) ∧
    ((∃ c member i e qs params, p.ChecksArguments (.ofConfiguration cfg) c member i e qs params ∧
        .substitutable ∈ params) → p.Leaks (.ofConfiguration cfg)) ∧
    (∀ c member i owner name args t,
      p.Evaluates (.ofConfiguration cfg) c member i (.staticCall owner name args) t →
      ∃ m qs σ, p.Calls (.ofConfiguration cfg) c member i (.staticCall owner name args) m qs σ ∧
        t.qualifier = σ.ret ∧ (m.signature.isStatic = true → σ = m.signature.instantiate qs)) ∧
    ∀ c member i receiver name args t,
      p.Evaluates (.ofConfiguration cfg) c member i (.call receiver name args) t →
      ∃ m qs σ, p.Calls (.ofConfiguration cfg) c member i (.call receiver name args) m qs σ ∧
        t.qualifier = σ.ret ∧ (m.signature.isStatic = true → σ = m.signature.substituteStatic) := by
  refine ⟨⟨?_, ?_⟩, ?_, ?_, ?_⟩
  · rintro ⟨c, member, i, e, t, he, ht⟩
    by_contra hleak
    exact he.concrete hcfg h hr hleak ht
  · exact Program.Leaks.exists_evaluates h
  · rintro ⟨c, member, i, e, qs, params, hchecks, hmem⟩
    by_contra hleak
    exact hchecks.concrete hcfg h hr hleak _ hmem rfl
  · intro c member i owner name args t he
    exact he.exists_calls_static hcfg h hr
  · intro c member i receiver name args t he
    exact he.exists_calls_instance

/-- A method that gives back its argument, with the qualifier of the argument. -/
def pickMethod : MethodDecl where
  name := "pick"
  isStatic := true
  receiverText := none
  params := [⟨"a", .declared "Object", some "@PolyMutable"⟩]
  returns := some (.declared "Object")
  returnText := some "@PolyMutable"
  body := [.exit (some (.var "a"))]

/-- The method called through an instance. -/
def pickOnSelf : Expr := .call .self "pick" [.var "x"]

/-- The method called in the static form. -/
def pickOnClass : Expr := .staticCall "Calls" "pick" [.var "x"]

/-- Both calls with the same argument, which is `mutable`. -/
def callsClass : ClassDecl where
  name := "Calls"
  fields := []
  constructors := []
  methods := [pickMethod,
    { name := "use", isStatic := false, receiverText := none
      params := [⟨"x", .declared "Object", some "@Mutable"⟩], returns := none, returnText := none
      body := [.eval (.binary (.declared "Object") pickOnSelf pickOnClass)] }]

/-- In the static form the result is the `mutable` argument. Through the instance it is the
placeholder, against which the argument has been checked before. -/
theorem placeholder_escapes_iff_callsClass :
    ∃ r, (Program.mk [callsClass]).check (.ofConfiguration .standard) = .ok r ∧
      r.diagnostics.map (fun x => x.diagnostic.kind) = [.argumentTypeIncompatible] ∧
      (Program.mk [callsClass]).Evaluates (.ofConfiguration .standard) callsClass (.method 1) 0
        pickOnSelf ⟨.declared "Object", .substitutable⟩ ∧
      (Program.mk [callsClass]).Leaks (.ofConfiguration .standard) ∧
      ∃ m qs σ, (Program.mk [callsClass]).Calls (.ofConfiguration .standard) callsClass (.method 1)
        0 pickOnClass m qs σ ∧ σ.ret = .mutable := by
  have hkinds : ((Program.mk [callsClass]).check (.ofConfiguration .standard)).map
      (fun r => r.diagnostics.map fun x => x.diagnostic.kind) =
        .ok [.argumentTypeIncompatible] := by decide +kernel
  have hcalls : ((resolveClasses (.ofConfiguration .standard) ∅ [callsClass]).run ∅).map
      (fun x => (x.1.get? "Calls").bind fun table => (startOf? callsClass table (.method 1)).map
        fun s => (((checkExpr ⟨.ofConfiguration .standard, x.1⟩ s pickOnSelf).run ∅).map Prod.fst,
          ((checkExpr ⟨.ofConfiguration .standard, x.1⟩ s pickOnClass).run ∅).map Prod.fst)) =
      .ok (some (.ok ⟨.declared "Object", .substitutable⟩,
        .ok ⟨.declared "Object", .mutable⟩)) := by
    decide +kernel
  cases hr : (Program.mk [callsClass]).check (.ofConfiguration .standard) with
  | error f => rw [hr] at hkinds; cases hkinds
  | ok r =>
    rw [hr] at hkinds
    have hkinds' : r.diagnostics.map (fun x => x.diagnostic.kind) = [.argumentTypeIncompatible] :=
      Except.ok.inj hkinds
    have hlegal : ∀ x ∈ r.diagnostics,
        x.diagnostic.kind ≠ .typeInvalid ∧ x.diagnostic.kind ≠ .invalidCastQualifier := by
      intro x hx
      have hmem := List.mem_map_of_mem (f := fun x => x.diagnostic.kind) hx
      rw [hkinds', List.mem_singleton] at hmem
      rw [hmem]
      decide
    obtain ⟨hiff, -, hstatic, -⟩ :=
      placeholder_escapes_iff .standard (by decide) ⟨[callsClass]⟩ r hr hlegal
    cases hfirst : (resolveClasses (.ofConfiguration .standard) ∅ [callsClass]).run ∅ with
    | error f => rw [hfirst] at hcalls; cases hcalls
    | ok x =>
      rw [hfirst] at hcalls
      obtain ⟨table, htable, hstart⟩ := Option.bind_eq_some_iff.1 (Except.ok.inj hcalls)
      obtain ⟨s, hs, hvalues⟩ := Option.map_eq_some_iff.1 hstart
      obtain ⟨hself, hclass⟩ := Prod.mk.inj hvalues
      obtain ⟨d₁, hd₁⟩ := exists_yields_iff.2 hself
      obtain ⟨d₂, hd₂⟩ := exists_yields_iff.2 hclass
      have hreach : (Program.mk [callsClass]).Reaches (.ofConfiguration .standard) callsClass
          (.method 1) 0 x.1 (.eval (.binary (.declared "Object") pickOnSelf pickOnClass)) s :=
        ⟨List.mem_cons_self, hfirst, htable, hs, rfl, rfl, rfl⟩
      have heself := Program.evaluates_iff.2 ⟨_, _, _, d₁, hreach,
        ⟨_, List.mem_cons_self, .child List.mem_cons_self .refl⟩, hd₁⟩
      have heclass := Program.evaluates_iff.2 ⟨_, _, _, d₂, hreach,
        ⟨_, List.mem_cons_self, .child (List.mem_cons_of_mem _ List.mem_cons_self) .refl⟩, hd₂⟩
      obtain ⟨m, qs, σ, hcalled, hret, -⟩ := hstatic _ _ _ _ _ _ _ heclass
      exact ⟨r, rfl, hkinds', heself, hiff.1 ⟨_, _, _, _, _, heself, rfl⟩, m, qs, σ, hcalled,
        hret.symm⟩

end Mutability
