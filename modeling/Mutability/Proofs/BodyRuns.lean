import Mutability.Proofs.TableRuns

/-!
# The runs of the second pass

For every form of expression and statement, what a run within `P` consists of: the runs of its
parts, the look-ups it makes, and the diagnostics it may add. Members, classes and whole programs
follow. Everything that is proved about bodies is read off these equivalences; no later proof opens
the functions of the checker themselves.
-/

namespace Mutability

namespace Checker

variable {P : Diagnostic → Prop}

/-! ## Look-ups -/

theorem bind_eq_ok {α β : Type} {x : Except Fault α} {k : α → Except Fault β} {b : β} :
    (x >>= k) = .ok b ↔ ∃ a, x = .ok a ∧ k a = .ok b := by
  cases x with
  | error f => simp [bind, Except.bind]
  | ok a => simp [bind, Except.bind]

theorem Tables.table_eq_ok {ts : Tables} {owner : String} {table : ClassTable} :
    ts.table owner = .ok table ↔ ts.get? owner = some table := by
  rw [Tables.table_eq, orFault_eq_ok]

theorem className_eq_ok {host : HostType} {name : String} :
    className host = .ok name ↔ host = .declared name := by
  cases host <;> simp [className]

theorem Tables.field_eq_ok {ts : Tables} {host : HostType} {name : String} {f : ResolvedField} :
    ts.field host name = .ok f ↔ ∃ owner, host = .declared owner ∧
      ∃ table, ts.get? owner = some table ∧ table.fields.get? name = some f := by
  rw [Tables.field_eq]
  simp only [bind_eq_ok, className_eq_ok, Tables.table_eq_ok, orFault_eq_ok]

theorem Tables.method_eq_ok {ts : Tables} {owner name : String} {arity : Nat}
    {m : ResolvedMethod} :
    ts.method owner name arity = .ok m ↔ ∃ table, ts.get? owner = some table ∧
      table.methods.find? (fun m => m.signature.name = name ∧ m.params.length = arity) =
        some m := by
  rw [Tables.method_eq]
  simp only [bind_eq_ok, Tables.table_eq_ok, orFault_eq_ok]

theorem Tables.constructor_eq_ok {ts : Tables} {owner : String} {arity : Nat}
    {k : ResolvedConstructor} :
    ts.constructor owner arity = .ok k ↔ ∃ table, ts.get? owner = some table ∧
      table.constructors.find? (fun k => k.params.length = arity) = some k := by
  rw [Tables.constructor_eq]
  simp only [bind_eq_ok, Tables.table_eq_ok, orFault_eq_ok]

theorem ClassTable.constructorAt_eq_ok {table : ClassTable} {name : String} {index : Nat}
    {k : ResolvedConstructor} :
    table.constructorAt name index = .ok k ↔ table.constructors[index]? = some k :=
  orFault_eq_ok

theorem ClassTable.methodAt_eq_ok {table : ClassTable} {name : String} {index : Nat}
    {m : ResolvedMethod} :
    table.methodAt name index = .ok m ↔ table.methods[index]? = some m :=
  orFault_eq_ok

theorem Scope.self_eq_ok {s : Scope} {q : Qualifier} : s.self = .ok q ↔ s.receiver = some q := by
  rw [Scope.self_eq, orFault_eq_ok]

theorem Scope.var_eq_ok {s : Scope} {name : String} {v : Var} :
    s.var name = .ok v ↔ s.vars.get? name = some v := by
  rw [Scope.var_eq, orFault_eq_ok]

/-! ## Expressions -/

variable {env : Env} {s : Scope} {t : Typed}

/-- The qualifier of a field read through a receiver; a static field is read through none. -/
def ResolvedField.readThrough (f : ResolvedField) (receiver : Qualifier) : Qualifier :=
  if f.field.isStatic then f.field.declared else f.field.viewedThrough receiver

theorem within_self :
    Within P (checkExpr env s .self) t ↔
      ∃ q, s.receiver = some q ∧ t = ⟨.declared s.location.className, q⟩ := by
  rw [checkExpr]
  simp only [within_bind, within_lift, within_pure, Scope.self_eq_ok]

theorem within_null :
    Within P (checkExpr env s .null) t ↔
      t = ⟨.null, env.policy.defaultQualifier .nullLiteral .null⟩ := by
  rw [checkExpr, within_pure]

theorem within_literal {host : HostType} :
    Within P (checkExpr env s (.literal host)) t ↔
      t = ⟨host, env.policy.defaultQualifier .localVariable host⟩ := by
  rw [checkExpr, within_pure]

theorem within_var {name : String} :
    Within P (checkExpr env s (.var name)) t ↔
      ∃ v, s.vars.get? name = some v ∧ t = ⟨v.declared.host, v.current⟩ := by
  rw [checkExpr]
  simp only [within_bind, within_lift, within_pure, Scope.var_eq_ok]

theorem within_fieldRead {receiver : Expr} {name : String} :
    Within P (checkExpr env s (.fieldRead receiver name)) t ↔
      ∃ target f, Within P (checkExpr env s receiver) target ∧
        env.tables.field target.host name = .ok f ∧
        t = ⟨f.host, f.readThrough target.qualifier⟩ := by
  rw [checkExpr]
  simp only [within_bind, within_lift, within_pure]
  constructor
  · rintro ⟨target, htarget, f, hf, ht⟩
    exact ⟨target, f, htarget, hf, ht⟩
  · rintro ⟨target, f, htarget, hf, ht⟩
    exact ⟨target, htarget, f, hf, ht⟩

theorem within_create {owner : String} {text : Option String} {args : List Expr} :
    Within P (checkExpr env s (.create owner text args)) t ↔
      ∃ k requested qs, env.tables.constructor owner args.length = .ok k ∧
        env.policy.resolve? text = .ok requested ∧
        (∀ x ∈ env.policy.illegality? (.written .newObject (.declared owner) requested), P x) ∧
        Within P (checkArgs env s args) qs ∧
        (∀ x ∈ Construction.invocationDiagnostics k.ret requested qs
          (k.params.map fun p => p.declared.qualifier), P x) ∧
        t = ⟨.declared owner, requested.getD k.ret⟩ := by
  rw [checkExpr]
  unfold validate
  simp only [within_bind, within_lift, within_emitAll, within_pure, Option.mem_toList,
    exists_const]
  constructor
  · rintro ⟨k, hk, requested, hreq, hlegal, qs, hqs, hinv, ht⟩
    exact ⟨k, requested, qs, hk, hreq, hlegal, hqs, hinv, ht⟩
  · rintro ⟨k, requested, qs, hk, hreq, hlegal, hqs, hinv, ht⟩
    exact ⟨k, hk, requested, hreq, hlegal, qs, hqs, hinv, ht⟩

theorem within_call {receiver : Expr} {name : String} {args : List Expr} :
    Within P (checkExpr env s (.call receiver name args)) t ↔
      ∃ target owner m qs, Within P (checkExpr env s receiver) target ∧
        target.host = .declared owner ∧ env.tables.method owner name args.length = .ok m ∧
        Within P (checkArgs env s args) qs ∧
        (∀ x ∈ misfit .methodInvocationInvalid target.qualifier
          (m.signature.seenFrom (some target.qualifier)).receiver, P x) ∧
        (∀ x ∈ Construction.argumentDiagnostics id 0 qs
          (m.signature.seenFrom (some target.qualifier)).params, P x) ∧
        t = ⟨m.returns.getD .null, (m.signature.seenFrom (some target.qualifier)).ret⟩ := by
  rw [checkExpr_call]
  simp only [within_bind, within_lift, within_emitAll, within_pure, className_eq_ok, exists_const]
  constructor
  · rintro ⟨target, htarget, owner, howner, m, hm, qs, hqs, hrec, hargs, ht⟩
    exact ⟨target, owner, m, qs, htarget, howner, hm, hqs, hrec, hargs, ht⟩
  · rintro ⟨target, owner, m, qs, htarget, howner, hm, hqs, hrec, hargs, ht⟩
    exact ⟨target, htarget, owner, howner, m, hm, qs, hqs, hrec, hargs, ht⟩

theorem within_staticCall {owner name : String} {args : List Expr} :
    Within P (checkExpr env s (.staticCall owner name args)) t ↔
      ∃ m qs, env.tables.method owner name args.length = .ok m ∧
        Within P (checkArgs env s args) qs ∧
        (∀ x ∈ Construction.argumentDiagnostics id 0 qs
          ((m.signature.seenFrom none).bind qs).signature.params, P x) ∧
        t = ⟨m.returns.getD .null, ((m.signature.seenFrom none).bind qs).signature.ret⟩ := by
  rw [checkExpr]
  unfold checkArguments
  simp only [within_bind, within_lift, within_emitAll, within_pure, exists_const]
  constructor
  · rintro ⟨m, hm, qs, hqs, hargs, ht⟩
    exact ⟨m, qs, hm, hqs, hargs, ht⟩
  · rintro ⟨m, qs, hm, hqs, hargs, ht⟩
    exact ⟨m, hm, qs, hqs, hargs, ht⟩

theorem within_cast {host : HostType} {text : Option String} {operand : Expr} :
    Within P (checkExpr env s (.cast host text operand)) t ↔
      ∃ inner explicit q, Within P (checkExpr env s operand) inner ∧
        env.policy.resolve? text = .ok explicit ∧
        (∀ x ∈ env.policy.illegality? (.written .cast host explicit), P x) ∧
        env.policy.qualifierOf
          ((Position.written .cast host explicit).fill inner.qualifier .propagated) = .ok q ∧
        t = ⟨host, q⟩ := by
  rw [checkExpr]
  unfold validate
  simp only [within_bind, within_lift, within_emitAll, within_pure, Option.mem_toList,
    exists_const]
  constructor
  · rintro ⟨inner, hinner, explicit, hexp, hlegal, q, hq, ht⟩
    exact ⟨inner, explicit, q, hinner, hexp, hlegal, hq, ht⟩
  · rintro ⟨inner, explicit, q, hinner, hexp, hlegal, hq, ht⟩
    exact ⟨inner, hinner, explicit, hexp, hlegal, q, hq, ht⟩

theorem within_binary {host : HostType} {lhs rhs : Expr} :
    Within P (checkExpr env s (.binary host lhs rhs)) t ↔
      ∃ l r q, Within P (checkExpr env s lhs) l ∧ Within P (checkExpr env s rhs) r ∧
        env.policy.qualifierOf
          ((Position.bare .binary host).fill (l.qualifier.join r.qualifier) .propagated) = .ok q ∧
        t = ⟨host, q⟩ := by
  rw [checkExpr]
  simp only [within_bind, within_lift, within_pure]
  constructor
  · rintro ⟨l, hl, r, hr, q, hq, ht⟩
    exact ⟨l, r, q, hl, hr, hq, ht⟩
  · rintro ⟨l, r, q, hl, hr, hq, ht⟩
    exact ⟨l, hl, r, hr, q, hq, ht⟩

theorem within_checkArgs {args : List Expr} {qs : List Qualifier} :
    Within P (checkArgs env s args) qs ↔
      List.Forall₂ (fun e q => ∃ t, Within P (checkExpr env s e) t ∧ q = t.qualifier) args qs := by
  induction args generalizing qs with
  | nil => rw [checkArgs, within_pure, List.forall₂_nil_left_iff]
  | cons e rest ih =>
    rw [checkArgs]
    simp only [within_bind, within_pure, ih, List.forall₂_cons_left_iff]
    constructor
    · rintro ⟨t, ht, qs', hqs, rfl⟩
      exact ⟨t.qualifier, qs', ⟨t, ht, rfl⟩, hqs, rfl⟩
    · rintro ⟨q, qs', ⟨t, ht, rfl⟩, hqs, rfl⟩
      exact ⟨t, ht, qs', hqs, rfl⟩

/-! ## Statements -/

variable {s' : Scope}

theorem within_assignVar {declared : Position} {value q : Qualifier} :
    Within P (assignVar env s declared value) q ↔
      ∃ required, env.policy.qualifierOf declared = .ok required ∧
        if declared.isExplicit then
          (∀ x ∈ misfit .assignmentTypeIncompatible value (some required), P x) ∧ q = required
        else q = env.policy.config.settled declared.host value := by
  rw [assignVar_eq]
  simp only [within_bind, within_lift]
  refine exists_congr fun required => and_congr_right fun _ => ?_
  cases declared.isExplicit with
  | true =>
    show Within P (emitAll _ _ >>= fun _ => pure required) q ↔ _ ∧ _
    simp only [within_bind, within_emitAll, within_pure, exists_const]
  | false =>
    show Within P (pure _) q ↔ _
    exact within_pure

theorem within_localVar_none {name : String} {host : HostType} {text : Option String} :
    Within P (checkStmt env s (.localVar name host text none)) s' ↔
      ∃ d, DeclaredAs P env.policy .localVariable host text d ∧
        s' = { s with vars := s.vars.insert name ⟨d.position, d.qualifier⟩ } := by
  unfold checkStmt
  simp only [within_bind, within_declare, within_pure]

theorem within_localVar_some {name : String} {host : HostType} {text : Option String} {e : Expr} :
    Within P (checkStmt env s (.localVar name host text (some e))) s' ↔
      ∃ d value q, DeclaredAs P env.policy .localVariable host text d ∧
        Within P (checkExpr env s e) value ∧
        Within P (assignVar env s d.position value.qualifier) q ∧
        s' = { s with vars := s.vars.insert name ⟨d.position, q⟩ } := by
  unfold checkStmt
  simp only [within_bind, within_declare, within_pure]
  constructor
  · rintro ⟨d, hd, value, hvalue, q, hq, hs⟩
    exact ⟨d, value, q, hd, hvalue, hq, hs⟩
  · rintro ⟨d, value, q, hd, hvalue, hq, hs⟩
    exact ⟨d, hd, value, hvalue, q, hq, hs⟩

theorem within_assign {target : String} {e : Expr} :
    Within P (checkStmt env s (.assign target e)) s' ↔
      ∃ v value q, s.vars.get? target = some v ∧ Within P (checkExpr env s e) value ∧
        Within P (assignVar env s v.declared value.qualifier) q ∧
        s' = { s with vars := s.vars.insert target ⟨v.declared, q⟩ } := by
  unfold checkStmt
  simp only [within_bind, within_lift, within_pure, Scope.var_eq_ok]
  constructor
  · rintro ⟨v, hv, value, hvalue, q, hq, hs⟩
    exact ⟨v, value, q, hv, hvalue, hq, hs⟩
  · rintro ⟨v, value, q, hv, hvalue, hq, hs⟩
    exact ⟨v, hv, value, hvalue, q, hq, hs⟩

theorem within_fieldWrite {receiver : Expr} {name : String} {e : Expr} :
    Within P (checkStmt env s (.fieldWrite receiver name e)) s' ↔
      ∃ target f value, Within P (checkExpr env s receiver) target ∧
        env.tables.field target.host name = .ok f ∧ Within P (checkExpr env s e) value ∧
        (∀ x ∈ f.field.writeDiagnostics target.qualifier (s.inConstructor && isSelf receiver)
          value.qualifier, P x) ∧
        s' = if s.inConstructor && isSelf receiver then { s with written := name :: s.written }
          else s := by
  unfold checkStmt
  simp only [within_bind, within_lift, within_emitAll, within_pure, exists_const]
  constructor
  · rintro ⟨target, htarget, f, hf, value, hvalue, hw, hs⟩
    exact ⟨target, f, value, htarget, hf, hvalue, hw, hs⟩
  · rintro ⟨target, f, value, htarget, hf, hvalue, hw, hs⟩
    exact ⟨target, htarget, f, hf, value, hvalue, hw, hs⟩

theorem within_eval {e : Expr} :
    Within P (checkStmt env s (.eval e)) s' ↔ (∃ t, Within P (checkExpr env s e) t) ∧ s' = s := by
  unfold checkStmt
  simp only [within_bind, within_pure, exists_and_right]

theorem within_exit_none : Within P (checkStmt env s (.exit none)) s' ↔ s' = s := by
  unfold checkStmt
  exact within_pure

theorem within_exit_some {e : Expr} :
    Within P (checkStmt env s (.exit (some e))) s' ↔
      ∃ value, Within P (checkExpr env s e) value ∧
        (∀ x ∈ misfit .returnTypeIncompatible value.qualifier s.returns, P x) ∧ s' = s := by
  rw [checkStmt_exit_some]
  simp only [within_bind, within_emitAll, within_pure, exists_const]

theorem within_checkBody_nil : Within P (checkBody env s []) s' ↔ s' = s := by
  unfold checkBody
  exact within_pure

theorem within_checkBody_cons {stmt : Stmt} {rest : List Stmt} :
    Within P (checkBody env s (stmt :: rest)) s' ↔
      ∃ next, Within P (checkStmt env s stmt) next ∧ Within P (checkBody env next rest) s' := by
  rw [checkBody]
  exact within_bind

/-! ## What a statement changes -/

/-- The two scopes differ at most in the variables and in the fields that have been written. -/
structure Scope.SameMember (s s' : Scope) : Prop where
  location : s'.location = s.location
  receiver : s'.receiver = s.receiver
  inConstructor : s'.inConstructor = s.inConstructor
  returns : s'.returns = s.returns

/-- Every variable of the scope satisfies `I`. -/
def Scope.VarsAre (I : Var → Prop) (s : Scope) : Prop :=
  ∀ x v, s.vars.get? x = some v → I v

theorem Scope.VarsAre.insert {I : Var → Prop} (h : s.VarsAre I) {x : String} {v : Var} (hv : I v) :
    Scope.VarsAre I { s with vars := s.vars.insert x v } := by
  intro y w hw
  rw [OrderedMap.get?_insert] at hw
  split at hw
  · cases hw; exact hv
  · exact h y w hw

theorem sameMember_of_checkStmt {stmt : Stmt} (h : Within P (checkStmt env s stmt) s') :
    s.SameMember s' := by
  cases stmt with
  | localVar name host text init =>
    cases init with
    | none =>
      obtain ⟨d, -, rfl⟩ := within_localVar_none.1 h
      exact ⟨rfl, rfl, rfl, rfl⟩
    | some e =>
      obtain ⟨d, value, q, -, -, -, rfl⟩ := within_localVar_some.1 h
      exact ⟨rfl, rfl, rfl, rfl⟩
  | assign target e =>
    obtain ⟨v, value, q, -, -, -, rfl⟩ := within_assign.1 h
    exact ⟨rfl, rfl, rfl, rfl⟩
  | fieldWrite receiver name e =>
    obtain ⟨target, f, value, -, -, -, -, rfl⟩ := within_fieldWrite.1 h
    split <;> exact ⟨rfl, rfl, rfl, rfl⟩
  | eval e =>
    obtain ⟨-, rfl⟩ := within_eval.1 h
    exact ⟨rfl, rfl, rfl, rfl⟩
  | exit value =>
    cases value with
    | none =>
      obtain rfl := within_exit_none.1 h
      exact ⟨rfl, rfl, rfl, rfl⟩
    | some e =>
      obtain ⟨value, -, -, rfl⟩ := within_exit_some.1 h
      exact ⟨rfl, rfl, rfl, rfl⟩

/-- The expression whose value a statement gives to a variable. -/
def assigned? : Stmt → Option Expr
  | .localVar _ _ _ init => init
  | .assign _ value => some value
  | .fieldWrite _ _ _ | .eval _ | .exit _ => none

/-- A property of variables that declarations establish and assignments keep is kept by every
statement. -/
theorem Scope.VarsAre.checkStmt {I : Var → Prop} {stmt : Stmt}
    (hdeclare : ∀ host text d, DeclaredAs P env.policy .localVariable host text d →
      I ⟨d.position, d.qualifier⟩)
    (hassign : ∀ v e value q, assigned? stmt = some e → Within P (checkExpr env s e) value →
      I v → Within P (assignVar env s v.declared value.qualifier) q → I ⟨v.declared, q⟩)
    (hs : s.VarsAre I) (h : Within P (checkStmt env s stmt) s') : s'.VarsAre I := by
  cases stmt with
  | localVar name host text init =>
    cases init with
    | none =>
      obtain ⟨d, hd, rfl⟩ := within_localVar_none.1 h
      exact hs.insert (hdeclare host text d hd)
    | some e =>
      obtain ⟨d, value, q, hd, hvalue, hq, rfl⟩ := within_localVar_some.1 h
      have hdecl := hdeclare host text d hd
      exact hs.insert (hassign ⟨d.position, d.qualifier⟩ e value q rfl hvalue hdecl hq)
  | assign target e =>
    obtain ⟨v, value, q, hv, hvalue, hq, rfl⟩ := within_assign.1 h
    exact hs.insert (hassign v e value q rfl hvalue (hs target v hv) hq)
  | fieldWrite receiver name e =>
    obtain ⟨target, f, value, -, -, -, -, rfl⟩ := within_fieldWrite.1 h
    split <;> exact hs
  | eval e =>
    obtain ⟨-, rfl⟩ := within_eval.1 h
    exact hs
  | exit value =>
    cases value with
    | none =>
      obtain rfl := within_exit_none.1 h
      exact hs
    | some e =>
      obtain ⟨value, -, -, rfl⟩ := within_exit_some.1 h
      exact hs

theorem get?_foldl_insert_vars {I : Var → Prop} {es : List (String × Var)}
    {m : OrderedMap String Var} (hm : ∀ x v, m.get? x = some v → I v) (hes : ∀ e ∈ es, I e.2)
    {x : String} {v : Var} (h : (es.foldl (fun m e => m.insert e.1 e.2) m).get? x = some v) :
    I v := by
  induction es generalizing m with
  | nil => exact hm x v h
  | cons e rest ih =>
    refine ih (fun y w hw => ?_) (fun e' he' => hes e' (List.mem_cons_of_mem e he')) h
    rw [OrderedMap.get?_insert] at hw
    split at hw
    · cases hw; exact hes e List.mem_cons_self
    · exact hm y w hw

/-- Before a body the variables are the parameters. -/
theorem get?_bindParams {I : Var → Prop} {rs : List ResolvedParam}
    (h : ∀ r ∈ rs, I ⟨r.declared.position, r.declared.qualifier⟩) {x : String} {v : Var}
    (hv : (bindParams rs).get? x = some v) : I v := by
  refine get?_foldl_insert_vars (fun y w hw => by cases hw) (fun e he => ?_) hv
  obtain ⟨r, hr, rfl⟩ := List.mem_map.1 he
  exact h r hr

/-! ## Members -/

theorem within_checkConstructor {c : ClassDecl} {index : Nat} {k : ConstructorDecl}
    {summary : ConstructorSummary} :
    Within P (checkConstructor env c index k) summary ↔
      ∃ table resolved s', env.tables.get? c.name = some table ∧
        table.constructors[index]? = some resolved ∧
        (∀ x ∈ Construction.declarationDiagnostics resolved.ret
          (resolved.params.map fun p => p.declared.qualifier), P x) ∧
        Within P (checkBody env (constructorScope c index resolved) k.body) s' ∧
        summary = summarize c index table resolved s'.written := by
  rw [checkConstructor_eq]
  simp only [within_bind, within_lift, within_emitAll, within_pure, Tables.table_eq_ok,
    ClassTable.constructorAt_eq_ok, exists_const]
  constructor
  · rintro ⟨table, htable, resolved, hres, hdecl, s', hbody, hsum⟩
    exact ⟨table, resolved, s', htable, hres, hdecl, hbody, hsum⟩
  · rintro ⟨table, resolved, s', htable, hres, hdecl, hbody, hsum⟩
    exact ⟨table, htable, resolved, hres, hdecl, s', hbody, hsum⟩

theorem within_checkMethod {c : ClassDecl} {index : Nat} {m : MethodDecl} {u : Unit} :
    Within P (checkMethod env c index m) u ↔
      ∃ table resolved s', env.tables.get? c.name = some table ∧
        table.methods[index]? = some resolved ∧
        Within P (checkBody env (methodScope c m resolved) m.body) s' := by
  rw [checkMethod_eq]
  simp only [within_bind, within_lift, within_pure, Tables.table_eq_ok,
    ClassTable.methodAt_eq_ok, and_true]
  constructor
  · rintro ⟨table, htable, resolved, hres, s', hbody⟩
    exact ⟨table, resolved, s', htable, hres, hbody⟩
  · rintro ⟨table, resolved, s', htable, hres, hbody⟩
    exact ⟨table, htable, resolved, hres, s', hbody⟩

theorem within_recordSummary {summary : ConstructorSummary} {u : Unit} :
    Within P (recordSummary summary) u :=
  ⟨_, rfl, fun x hx => by cases hx⟩

theorem within_recordObject? {name : String} {object : Option ObjectState} {u : Unit} :
    Within P (recordObject? name object) u := by
  cases object with
  | none => exact within_pure.2 rfl
  | some o => exact ⟨_, rfl, fun x hx => by cases hx⟩

theorem within_checkConstructors {c : ClassDecl} {index : Nat} {ks : List ConstructorDecl} :
    (∃ objects, Within P (checkConstructors env c index ks) objects) ↔
      ∀ i k, ks[i]? = some k →
        ∃ summary, Within P (checkConstructor env c (index + i) k) summary := by
  induction ks generalizing index with
  | nil =>
    unfold checkConstructors
    exact ⟨fun _ i k hk => by simp at hk, fun _ => ⟨[], within_pure.2 rfl⟩⟩
  | cons k rest ih =>
    unfold checkConstructors
    simp only [within_bind, within_recordSummary, true_and, exists_const]
    constructor
    · rintro ⟨objects, summary, hsum, objects', hrest, -⟩ i k' hk'
      cases i with
      | zero =>
        obtain rfl : k = k' := by simpa using hk'
        exact ⟨summary, hsum⟩
      | succ i =>
        have := ih.1 ⟨objects', hrest⟩ i k' (by simpa using hk')
        rwa [Nat.add_right_comm, Nat.add_assoc] at this
    · intro h
      obtain ⟨summary, hsum⟩ := h 0 k rfl
      obtain ⟨objects', hrest⟩ := ih.2 fun i k' hk' => by
        have := h (i + 1) k' (by simpa using hk')
        rwa [Nat.add_right_comm, Nat.add_assoc]
      exact ⟨_, summary, hsum, objects', hrest, within_pure.2 rfl⟩

theorem within_checkMethods {c : ClassDecl} {index : Nat} {ms : List MethodDecl} {u : Unit} :
    Within P (checkMethods env c index ms) u ↔
      ∀ i m, ms[i]? = some m → Within P (checkMethod env c (index + i) m) () := by
  induction ms generalizing index with
  | nil =>
    unfold checkMethods
    exact ⟨fun _ i m hm => by simp at hm, fun _ => within_pure.2 rfl⟩
  | cons m rest ih =>
    unfold checkMethods
    simp only [within_bind, ih]
    constructor
    · rintro ⟨⟨⟩, hm, hrest⟩ i m' hm'
      cases i with
      | zero =>
        obtain rfl : m = m' := by simpa using hm'
        exact hm
      | succ i =>
        have := hrest i m' (by simpa using hm')
        rwa [Nat.add_right_comm, Nat.add_assoc] at this
    · intro h
      refine ⟨(), h 0 m rfl, fun i m' hm' => ?_⟩
      have := h (i + 1) m' (by simpa using hm')
      rwa [Nat.add_right_comm, Nat.add_assoc]

/-- A class is checked within `P` exactly if each of its constructors and methods is. -/
theorem within_checkClass {c : ClassDecl} {u : Unit} :
    Within P (checkClass env c) u ↔
      (∀ i k, c.constructors[i]? = some k →
        ∃ summary, Within P (checkConstructor env c i k) summary) ∧
      ∀ i m, c.methods[i]? = some m → Within P (checkMethod env c i m) () := by
  rw [checkClass_eq]
  simp only [within_bind, within_recordObject?, true_and, exists_const, exists_and_right,
    within_checkConstructors, within_checkMethods, Nat.zero_add]

theorem within_checkClasses {cs : List ClassDecl} {u : Unit} :
    Within P (checkClasses env cs) u ↔ ∀ c ∈ cs, Within P (checkClass env c) () := by
  induction cs with
  | nil =>
    unfold checkClasses
    exact ⟨fun _ c hc => absurd hc List.not_mem_nil, fun _ => within_pure.2 rfl⟩
  | cons c rest ih =>
    unfold checkClasses
    rw [within_bind, List.forall_mem_cons]
    exact ⟨fun ⟨_, hc, hrest⟩ => ⟨hc, ih.1 hrest⟩, fun ⟨hc, hrest⟩ => ⟨(), hc, ih.2 hrest⟩⟩

end Checker

open Checker

/-- A program is checked with diagnostics in `P` only, exactly if both passes are within `P`. -/
theorem Program.check_within {P : Diagnostic → Prop} {π : Policy} {p : Program} :
    (∃ r, p.check π = .ok r ∧ ∀ x ∈ r.diagnostics, P x.diagnostic) ↔
      ∃ tables, Within P (resolveClasses π ∅ p.classes) tables ∧
        ∀ c ∈ p.classes, Within P (checkClass ⟨π, tables⟩ c) () := by
  simp only [Program.check_eq_ok, ← within_checkClasses (u := ())]
  exact within_bind

end Mutability
