import Mutability.Proofs.Annotation
import Mutability.Proofs.BodyRuns

/-!
# The faults of a check

A check ends in a fault of the program, such as a name that stands for nothing, or in one of the
rules, which were then asked a question without an answer. `FaultsIn F` says that a computation can
only end in faults that satisfy `F`. It is kept by sequences of steps, so the functions of the
checker are taken one by one: with the generic stage among the stages no position is left without
a qualifier, and what remains are faults of the program and the number of a member that the table
of its class does not have.

Such a number is too large only where two classes share a name. The table under a name is that of
the last class with this name (`exists_last_class_of_get?`), and has its members in their order.
-/

namespace Mutability

/-- A fault of the program: an annotation, a name or a receiver that stands for nothing. -/
def Fault.OfProgram : Fault → Prop
  | .unknownQualifier _ | .unknownClass _ | .unknownField _ _ | .unknownMethod _ _ _
  | .unknownConstructor _ _ | .unknownVariable _ _ | .selfInStatic _ | .notAClass _ => True
  | .unexpectedTarget _ | .mixedHierarchies _ _ | .missingQualifier _ | .staleMember _ _ => False

/-- Two classes have this name, and the last one of that name has fewer constructors, or fewer
methods, so that none of them has the number `i` although one of the earlier class has. -/
def Program.Shadowed (p : Program) (owner : String) (i : Nat) : Prop :=
  ∃ before c between last after, p.classes = before ++ c :: (between ++ last :: after) ∧
    c.name = owner ∧ last.name = owner ∧ owner ∉ after.map ClassDecl.name ∧
    (last.constructors.length ≤ i ∧ i < c.constructors.length ∨
      last.methods.length ≤ i ∧ i < c.methods.length)

namespace Checker

variable {α β : Type} {F : Fault → Prop}

/-- Every fault in which the computation can end satisfies `F`. -/
def FaultsIn (F : Fault → Prop) (m : Check α) : Prop :=
  ∀ f, Fails m f → F f

section Steps

theorem faultsIn_pure (a : α) : FaultsIn F (pure a : Check α) := by
  intro f hf
  cases hf

theorem faultsIn_lift {x : Except Fault α} (h : ∀ f, x = .error f → F f) :
    FaultsIn F (liftM x : Check α) := by
  intro f hf
  cases x with
  | error g =>
    have hg : Except.error (α := α × Report) g = .error f := hf
    cases hg
    exact h f rfl
  | ok a => cases hf

theorem FaultsIn.bind {m : Check α} {k : α → Check β} [∀ a, Additive (k a)] (hm : FaultsIn F m)
    (hk : ∀ a, FaultsIn F (k a)) : FaultsIn F (m >>= k) := by
  intro f hf
  rcases fails_bind.1 hf with hf | ⟨a, d, -, hf⟩
  · exact hm f hf
  · exact hk a f hf

theorem faultsIn_emitAll (l : Location) (ds : List Diagnostic) : FaultsIn F (emitAll l ds) := by
  intro f hf
  cases hf

theorem faultsIn_recordPosition (p : Position) : FaultsIn F (recordPosition p) := by
  intro f hf
  cases hf

theorem not_fails_recordSummary {summary : ConstructorSummary} {f : Fault} :
    ¬ Fails (recordSummary summary) f := by
  intro hf
  cases hf

theorem not_fails_recordObject? {name : String} {object : Option ObjectState} {f : Fault} :
    ¬ Fails (recordObject? name object) f := by
  intro hf
  cases object <;> cases hf

end Steps

section LookUps

theorem bind_eq_error {x : Except Fault α} {k : α → Except Fault β} {f : Fault} :
    (x >>= k) = .error f ↔ x = .error f ∨ ∃ a, x = .ok a ∧ k a = .error f := by
  cases x with
  | error g => simp [bind, Except.bind]
  | ok a => simp [bind, Except.bind]

theorem orFault_eq_error {f g : Fault} {o : Option α} :
    orFault g o = .error f ↔ o = none ∧ g = f := by
  cases o with
  | none => simp [orFault]
  | some a => simp [orFault]

theorem ofProgram_resolve? {π : Policy} {text : Option String} {f : Fault}
    (h : π.resolve? text = .error f) : f.OfProgram := by
  cases text with
  | none => cases h
  | some text =>
    cases hc : π.config.resolve text with
    | ok q => simp [Policy.resolve?, Policy.resolve, hc, Except.map] at h
    | error unknown =>
      simp only [Policy.resolve?, Policy.resolve, hc, Except.map, Except.error.injEq] at h
      subst h
      trivial

theorem ofProgram_className {host : HostType} {f : Fault} (h : className host = .error f) :
    f.OfProgram := by
  cases host <;> cases h <;> trivial

theorem ofProgram_table {ts : Tables} {owner : String} {f : Fault}
    (h : ts.table owner = .error f) : f.OfProgram := by
  rw [Tables.table_eq, orFault_eq_error] at h
  obtain ⟨-, rfl⟩ := h
  trivial

theorem ofProgram_field {ts : Tables} {host : HostType} {name : String} {f : Fault}
    (h : ts.field host name = .error f) : f.OfProgram := by
  simp only [Tables.field_eq, bind_eq_error, orFault_eq_error] at h
  rcases h with h | ⟨owner, -, h | ⟨table, -, -, rfl⟩⟩
  · exact ofProgram_className h
  · exact ofProgram_table h
  · trivial

theorem ofProgram_method {ts : Tables} {owner name : String} {arity : Nat} {f : Fault}
    (h : ts.method owner name arity = .error f) : f.OfProgram := by
  simp only [Tables.method_eq, bind_eq_error, orFault_eq_error] at h
  rcases h with h | ⟨table, -, -, rfl⟩
  · exact ofProgram_table h
  · trivial

theorem ofProgram_constructor {ts : Tables} {owner : String} {arity : Nat} {f : Fault}
    (h : ts.constructor owner arity = .error f) : f.OfProgram := by
  simp only [Tables.constructor_eq, bind_eq_error, orFault_eq_error] at h
  rcases h with h | ⟨table, -, -, rfl⟩
  · exact ofProgram_table h
  · trivial

theorem ofProgram_self {s : Scope} {f : Fault} (h : s.self = .error f) : f.OfProgram := by
  rw [Scope.self_eq, orFault_eq_error] at h
  obtain ⟨-, rfl⟩ := h
  trivial

theorem ofProgram_var {s : Scope} {name : String} {f : Fault} (h : s.var name = .error f) :
    f.OfProgram := by
  rw [Scope.var_eq, orFault_eq_error] at h
  obtain ⟨-, rfl⟩ := h
  trivial

/-- With the generic stage there is an answer for every position. -/
theorem faultsIn_qualifierOf {π : Policy} (hπ : Stage.generic ∈ π.stages) (p : Position) :
    FaultsIn F (liftM (π.qualifierOf p) : Check Qualifier) := by
  apply faultsIn_lift
  intro f hf
  obtain ⟨q, hq⟩ := π.qualifierOf_total hπ p
  rw [hq] at hf
  cases hf

theorem faultsIn_declared {π : Policy} (hπ : Stage.generic ∈ π.stages) (p : Position) :
    FaultsIn F (liftM (Declared.ofPosition (π.annotate p)) : Check Declared) := by
  apply faultsIn_lift
  intro f hf
  obtain ⟨d, hd⟩ := π.exists_declared hπ p
  rw [hd] at hf
  cases hf

theorem faultsIn_resolve? {π : Policy} {text : Option String} :
    FaultsIn Fault.OfProgram (liftM (π.resolve? text) : Check (Option Qualifier)) :=
  faultsIn_lift fun _ => ofProgram_resolve?

end LookUps

/-! ## The first pass -/

section FirstPass

variable {π : Policy} (hπ : Stage.generic ∈ π.stages)

include hπ

theorem faultsIn_declare (l : Location) (kind : Position.Kind) (host : HostType)
    (text : Option String) : FaultsIn Fault.OfProgram (declare π l kind host text) := by
  simp only [declare, validate]
  refine .bind faultsIn_resolve? fun explicit => ?_
  refine .bind (faultsIn_emitAll _ _) fun _ => ?_
  refine .bind (faultsIn_declared hπ _) fun d => ?_
  exact .bind (faultsIn_recordPosition _) fun _ => faultsIn_pure _

theorem faultsIn_resolveParams (l : Location) (method : String) (index : Nat)
    (ps : List ParamDecl) : FaultsIn Fault.OfProgram (resolveParams π l method index ps) := by
  induction ps generalizing index with
  | nil => exact faultsIn_pure _
  | cons p rest ih =>
    unfold resolveParams
    refine .bind (faultsIn_declare hπ _ _ _ _) fun declared => ?_
    exact .bind (ih (index + 1)) fun rs => faultsIn_pure _

theorem faultsIn_resolveFields (c : ClassDecl) (fields : OrderedMap String ResolvedField)
    (fs : List FieldDecl) : FaultsIn Fault.OfProgram (resolveFields π c fields fs) := by
  induction fs generalizing fields with
  | nil => exact faultsIn_pure _
  | cons f rest ih =>
    unfold resolveFields resolveField
    refine .bind (.bind (faultsIn_declare hπ _ _ _ _) fun declared => faultsIn_pure _) ?_
    intro resolved
    exact ih _

theorem faultsIn_resolveConstructors (c : ClassDecl) (index : Nat) (ks : List ConstructorDecl) :
    FaultsIn Fault.OfProgram (resolveConstructors π c index ks) := by
  induction ks generalizing index with
  | nil => exact faultsIn_pure _
  | cons k rest ih =>
    have hk : FaultsIn Fault.OfProgram (resolveConstructor π c index k) := by
      unfold resolveConstructor
      refine .bind (faultsIn_declare hπ _ _ _ _) fun ret => ?_
      exact .bind (faultsIn_resolveParams hπ _ _ _ _) fun params => faultsIn_pure _
    unfold resolveConstructors
    refine .bind hk fun resolved => ?_
    exact .bind (ih (index + 1)) fun rs => faultsIn_pure _

theorem faultsIn_resolveMethod (c : ClassDecl) (m : MethodDecl) :
    FaultsIn Fault.OfProgram (resolveMethod π c m) := by
  have hreceiver : FaultsIn Fault.OfProgram (resolveReceiver π c m) := by
    unfold resolveReceiver
    split
    · exact faultsIn_pure _
    · exact .bind (faultsIn_declare hπ _ _ _ _) fun declared => faultsIn_pure _
  have hret : FaultsIn Fault.OfProgram (resolveReturn π c m) := by
    unfold resolveReturn
    split
    · exact faultsIn_pure _
    · exact .bind (faultsIn_declare hπ _ _ _ _) fun declared => faultsIn_pure _
  unfold resolveMethod
  refine .bind hreceiver fun receiver => ?_
  refine .bind (faultsIn_resolveParams hπ _ _ _ _) fun params => ?_
  exact .bind hret fun ret => faultsIn_pure _

theorem faultsIn_resolveMethods (c : ClassDecl) (ms : List MethodDecl) :
    FaultsIn Fault.OfProgram (resolveMethods π c ms) := by
  induction ms with
  | nil => exact faultsIn_pure _
  | cons m rest ih =>
    unfold resolveMethods
    refine .bind (faultsIn_resolveMethod hπ c m) fun resolved => ?_
    exact .bind ih fun rs => faultsIn_pure _

theorem faultsIn_resolveClasses (tables : Tables) (cs : List ClassDecl) :
    FaultsIn Fault.OfProgram (resolveClasses π tables cs) := by
  induction cs generalizing tables with
  | nil => exact faultsIn_pure _
  | cons c rest ih =>
    have hc : FaultsIn Fault.OfProgram (resolveClass π c) := by
      unfold resolveClass
      refine .bind (faultsIn_resolveFields hπ _ _ _) fun fields => ?_
      refine .bind (faultsIn_resolveConstructors hπ _ _ _) fun ks => ?_
      exact .bind (faultsIn_resolveMethods hπ _ _) fun ms => faultsIn_pure _
    unfold resolveClasses
    exact .bind hc fun table => ih _

end FirstPass

/-! ## Bodies -/

section Bodies

variable {env : Env} (hπ : Stage.generic ∈ env.policy.stages)

theorem faultsIn_checkArgs_of {s : Scope} {args : List Expr}
    (h : ∀ a ∈ args, FaultsIn F (checkExpr env s a)) : FaultsIn F (checkArgs env s args) := by
  induction args with
  | nil => rw [checkArgs]; exact faultsIn_pure _
  | cons e rest ih =>
    have he := h e List.mem_cons_self
    have hrest := ih fun a ha => h a (List.mem_cons_of_mem e ha)
    rw [checkArgs]
    exact .bind he fun t => .bind hrest fun qs => faultsIn_pure _

include hπ

theorem faultsIn_checkExpr (s : Scope) (e : Expr) :
    FaultsIn Fault.OfProgram (checkExpr env s e) := by
  induction e using Expr.inductionOn with
  | self =>
    rw [checkExpr]
    exact .bind (faultsIn_lift fun _ => ofProgram_self) fun q => faultsIn_pure _
  | null => rw [checkExpr]; exact faultsIn_pure _
  | literal host => rw [checkExpr]; exact faultsIn_pure _
  | var name =>
    rw [checkExpr]
    exact .bind (faultsIn_lift fun _ => ofProgram_var) fun v => faultsIn_pure _
  | fieldRead receiver field ih =>
    rw [checkExpr]
    refine .bind ih fun target => ?_
    exact .bind (faultsIn_lift fun _ => ofProgram_field) fun f => faultsIn_pure _
  | create owner text args ih =>
    have hargs := faultsIn_checkArgs_of ih
    rw [checkExpr]
    unfold validate
    refine .bind (faultsIn_lift fun _ => ofProgram_constructor) fun k => ?_
    refine .bind faultsIn_resolve? fun requested => ?_
    refine .bind (faultsIn_emitAll _ _) fun _ => .bind hargs fun qs => ?_
    exact .bind (faultsIn_emitAll _ _) fun _ => faultsIn_pure _
  | call receiver name args ihr ih =>
    have hargs := faultsIn_checkArgs_of ih
    rw [checkExpr_call]
    refine .bind ihr fun target => ?_
    refine .bind (faultsIn_lift fun _ => ofProgram_className) fun owner => ?_
    refine .bind (faultsIn_lift fun _ => ofProgram_method) fun m => .bind hargs fun qs => ?_
    refine .bind (faultsIn_emitAll _ _) fun _ => ?_
    exact .bind (faultsIn_emitAll _ _) fun _ => faultsIn_pure _
  | staticCall owner name args ih =>
    have hargs := faultsIn_checkArgs_of ih
    rw [checkExpr]
    unfold checkArguments
    refine .bind (faultsIn_lift fun _ => ofProgram_method) fun m => .bind hargs fun qs => ?_
    exact .bind (faultsIn_emitAll _ _) fun _ => faultsIn_pure _
  | cast host text operand ih =>
    rw [checkExpr]
    unfold validate
    refine .bind ih fun inner => .bind faultsIn_resolve? fun explicit => ?_
    refine .bind (faultsIn_emitAll _ _) fun _ => ?_
    exact .bind (faultsIn_qualifierOf hπ _) fun q => faultsIn_pure _
  | binary host lhs rhs ihl ihr =>
    rw [checkExpr]
    refine .bind ihl fun l => .bind ihr fun r => ?_
    exact .bind (faultsIn_qualifierOf hπ _) fun q => faultsIn_pure _

theorem faultsIn_assignVar (s : Scope) (declared : Position) (value : Qualifier) :
    FaultsIn F (assignVar env s declared value) := by
  rw [assignVar_eq]
  refine .bind (faultsIn_qualifierOf hπ _) fun required => ?_
  split
  · exact .bind (faultsIn_emitAll _ _) fun _ => faultsIn_pure _
  · exact faultsIn_pure _

theorem faultsIn_checkStmt (s : Scope) (stmt : Stmt) :
    FaultsIn Fault.OfProgram (checkStmt env s stmt) := by
  cases stmt with
  | localVar name host text init =>
    cases init with
    | none =>
      unfold checkStmt
      exact .bind (faultsIn_declare hπ _ _ _ _) fun declared => faultsIn_pure _
    | some e =>
      unfold checkStmt
      refine .bind (faultsIn_declare hπ _ _ _ _) fun declared => ?_
      refine .bind (faultsIn_checkExpr hπ s e) fun value => ?_
      exact .bind (faultsIn_assignVar hπ _ _ _) fun current => faultsIn_pure _
  | assign target e =>
    unfold checkStmt
    refine .bind (faultsIn_lift fun _ => ofProgram_var) fun v => ?_
    refine .bind (faultsIn_checkExpr hπ s e) fun value => ?_
    exact .bind (faultsIn_assignVar hπ _ _ _) fun current => faultsIn_pure _
  | fieldWrite receiver name e =>
    unfold checkStmt
    refine .bind (faultsIn_checkExpr hπ s receiver) fun target => ?_
    refine .bind (faultsIn_lift fun _ => ofProgram_field) fun f => ?_
    refine .bind (faultsIn_checkExpr hπ s e) fun value => ?_
    exact .bind (faultsIn_emitAll _ _) fun _ => faultsIn_pure _
  | eval e =>
    unfold checkStmt
    exact .bind (faultsIn_checkExpr hπ s e) fun _ => faultsIn_pure _
  | exit value =>
    cases value with
    | none => exact faultsIn_pure _
    | some e =>
      rw [checkStmt_exit_some]
      refine .bind (faultsIn_checkExpr hπ s e) fun value => ?_
      exact .bind (faultsIn_emitAll _ _) fun _ => faultsIn_pure _

theorem faultsIn_checkBody (s : Scope) (body : List Stmt) :
    FaultsIn Fault.OfProgram (checkBody env s body) := by
  induction body generalizing s with
  | nil => exact faultsIn_pure _
  | cons stmt rest ih =>
    unfold checkBody
    exact .bind (faultsIn_checkStmt hπ s stmt) fun next => ih next

end Bodies

/-! ## Members by their number -/

section Members

variable {env : Env} {c : ClassDecl} {f : Fault}

/-- The check of a constructor against the given signature. -/
def checkConstructorAs (env : Env) (c : ClassDecl) (index : Nat) (k : ConstructorDecl)
    (table : ClassTable) (resolved : ResolvedConstructor) : Check ConstructorSummary := do
  emitAll (constructorLocation c index) (Construction.declarationDiagnostics resolved.ret
    (resolved.params.map fun p => p.declared.qualifier))
  let s ← checkBody env (constructorScope c index resolved) k.body
  return summarize c index table resolved s.written

/-- The check of a method against the given signature. -/
def checkMethodAs (env : Env) (c : ClassDecl) (m : MethodDecl) (resolved : ResolvedMethod) :
    Check Unit := do
  let _ ← checkBody env (methodScope c m resolved) m.body
  return ()

theorem lift_ok_bind (a : α) (k : α → Check β) :
    ((liftM (Except.ok a : Except Fault α) : Check α) >>= k) = k a :=
  pure_bind a k

theorem checkConstructor_of_getElem? {table : ClassTable} {index : Nat}
    {resolved : ResolvedConstructor} (htable : env.tables.get? c.name = some table)
    (hr : table.constructors[index]? = some resolved) (k : ConstructorDecl) :
    checkConstructor env c index k = checkConstructorAs env c index k table resolved := by
  have h₁ : env.tables.table c.name = .ok table := Tables.table_eq_ok.2 htable
  have h₂ : table.constructorAt c.name index = .ok resolved := ClassTable.constructorAt_eq_ok.2 hr
  rw [checkConstructor_eq, h₁, lift_ok_bind, h₂, lift_ok_bind]
  rfl

theorem checkMethod_of_getElem? {table : ClassTable} {index : Nat} {resolved : ResolvedMethod}
    (htable : env.tables.get? c.name = some table)
    (hr : table.methods[index]? = some resolved) (m : MethodDecl) :
    checkMethod env c index m = checkMethodAs env c m resolved := by
  have h₁ : env.tables.table c.name = .ok table := Tables.table_eq_ok.2 htable
  have h₂ : table.methodAt c.name index = .ok resolved := ClassTable.methodAt_eq_ok.2 hr
  rw [checkMethod_eq, h₁, lift_ok_bind, h₂, lift_ok_bind]
  rfl

theorem fails_checkConstructor (hπ : Stage.generic ∈ env.policy.stages) {index : Nat}
    {k : ConstructorDecl} (hf : Fails (checkConstructor env c index k) f) :
    f.OfProgram ∨ ∃ table, env.tables.get? c.name = some table ∧
      f = .staleMember c.name index ∧ table.constructors.length ≤ index := by
  cases htable : env.tables.get? c.name with
  | none =>
    rw [checkConstructor_eq, Tables.table_eq, htable] at hf
    cases hf
    exact Or.inl trivial
  | some table =>
    cases hr : table.constructors[index]? with
    | none =>
      have h₁ : env.tables.table c.name = .ok table := Tables.table_eq_ok.2 htable
      rw [checkConstructor_eq, h₁, lift_ok_bind, ClassTable.constructorAt, hr] at hf
      cases hf
      exact Or.inr ⟨table, rfl, rfl, List.getElem?_eq_none_iff.1 hr⟩
    | some resolved =>
      rw [checkConstructor_of_getElem? htable hr] at hf
      refine Or.inl (FaultsIn.bind (faultsIn_emitAll _ _) (fun _ => ?_) f hf)
      exact .bind (faultsIn_checkBody hπ _ _) fun s => faultsIn_pure _

theorem fails_checkMethod (hπ : Stage.generic ∈ env.policy.stages) {index : Nat}
    {m : MethodDecl} (hf : Fails (checkMethod env c index m) f) :
    f.OfProgram ∨ ∃ table, env.tables.get? c.name = some table ∧
      f = .staleMember c.name index ∧ table.methods.length ≤ index := by
  cases htable : env.tables.get? c.name with
  | none =>
    rw [checkMethod_eq, Tables.table_eq, htable] at hf
    cases hf
    exact Or.inl trivial
  | some table =>
    cases hr : table.methods[index]? with
    | none =>
      have h₁ : env.tables.table c.name = .ok table := Tables.table_eq_ok.2 htable
      rw [checkMethod_eq, h₁, lift_ok_bind, ClassTable.methodAt, hr] at hf
      cases hf
      exact Or.inr ⟨table, rfl, rfl, List.getElem?_eq_none_iff.1 hr⟩
    | some resolved =>
      rw [checkMethod_of_getElem? htable hr] at hf
      exact Or.inl (FaultsIn.bind (faultsIn_checkBody hπ _ _) (fun s => faultsIn_pure _) f hf)

theorem fails_checkConstructors (hπ : Stage.generic ∈ env.policy.stages) {index : Nat}
    {ks : List ConstructorDecl} (hf : Fails (checkConstructors env c index ks) f) :
    f.OfProgram ∨ ∃ table i, env.tables.get? c.name = some table ∧ f = .staleMember c.name i ∧
      table.constructors.length ≤ i ∧ i < index + ks.length := by
  induction ks generalizing index with
  | nil => cases hf
  | cons k rest ih =>
    unfold checkConstructors at hf
    rcases fails_bind.1 hf with hk | ⟨summary, d, -, hf⟩
    · rcases fails_checkConstructor hπ hk with h | ⟨table, htable, rfl, hi⟩
      · exact Or.inl h
      · exact Or.inr ⟨table, index, htable, rfl, hi, by simp⟩
    · rcases fails_bind.1 hf with hs | ⟨u, d, -, hf⟩
      · exact absurd hs not_fails_recordSummary
      · rcases fails_bind.1 hf with hrest | ⟨objects, d, -, hpure⟩
        · rcases ih hrest with h | ⟨table, i, htable, rfl, hi, hlt⟩
          · exact Or.inl h
          · exact Or.inr ⟨table, i, htable, rfl, hi, by rw [List.length_cons]; omega⟩
        · cases hpure

theorem fails_checkMethods (hπ : Stage.generic ∈ env.policy.stages) {index : Nat}
    {ms : List MethodDecl} (hf : Fails (checkMethods env c index ms) f) :
    f.OfProgram ∨ ∃ table i, env.tables.get? c.name = some table ∧ f = .staleMember c.name i ∧
      table.methods.length ≤ i ∧ i < index + ms.length := by
  induction ms generalizing index with
  | nil => cases hf
  | cons m rest ih =>
    unfold checkMethods at hf
    rcases fails_bind.1 hf with hm | ⟨u, d, -, hrest⟩
    · rcases fails_checkMethod hπ hm with h | ⟨table, htable, rfl, hi⟩
      · exact Or.inl h
      · exact Or.inr ⟨table, index, htable, rfl, hi, by simp⟩
    · rcases ih hrest with h | ⟨table, i, htable, rfl, hi, hlt⟩
      · exact Or.inl h
      · exact Or.inr ⟨table, i, htable, rfl, hi, by rw [List.length_cons]; omega⟩

/-- A class ends its check in a fault of the program, or at a member that is missing in the table
under its name. -/
theorem fails_checkClass (hπ : Stage.generic ∈ env.policy.stages)
    (hf : Fails (checkClass env c) f) :
    f.OfProgram ∨ ∃ table i, env.tables.get? c.name = some table ∧ f = .staleMember c.name i ∧
      (table.constructors.length ≤ i ∧ i < c.constructors.length ∨
        table.methods.length ≤ i ∧ i < c.methods.length) := by
  rw [checkClass_eq] at hf
  rcases fails_bind.1 hf with hks | ⟨objects, d, -, hf⟩
  · rcases fails_checkConstructors hπ hks with h | ⟨table, i, htable, rfl, hi, hlt⟩
    · exact Or.inl h
    · rw [Nat.zero_add] at hlt
      exact Or.inr ⟨table, i, htable, rfl, Or.inl ⟨hi, hlt⟩⟩
  · rcases fails_bind.1 hf with hobject | ⟨u, d, -, hms⟩
    · exact absurd hobject not_fails_recordObject?
    · rcases fails_checkMethods hπ hms with h | ⟨table, i, htable, rfl, hi, hlt⟩
      · exact Or.inl h
      · rw [Nat.zero_add] at hlt
        exact Or.inr ⟨table, i, htable, rfl, Or.inr ⟨hi, hlt⟩⟩

theorem exists_class_of_fails {cs : List ClassDecl} (hf : Fails (checkClasses env cs) f) :
    ∃ c ∈ cs, Fails (checkClass env c) f := by
  induction cs with
  | nil => cases hf
  | cons c rest ih =>
    unfold checkClasses at hf
    rcases fails_bind.1 hf with hc | ⟨u, d, -, hrest⟩
    · exact ⟨c, List.mem_cons_self, hc⟩
    · obtain ⟨c', hc', hfail⟩ := ih hrest
      exact ⟨c', List.mem_cons_of_mem c hc', hfail⟩

end Members

/-! ## The table under a name -/

section OwnTables

variable {P : Diagnostic → Prop} {π : Policy}

/-- The table under a name is that of the last class with this name. -/
theorem exists_last_class_of_get? {tables tables' : Tables} {cs : List ClassDecl} {owner : String}
    {table : ClassTable} (h : Within P (resolveClasses π tables cs) tables')
    (ht : tables'.get? owner = some table) :
    (∃ before c after, cs = before ++ c :: after ∧ c.name = owner ∧
        owner ∉ after.map ClassDecl.name ∧ ClassDeclaredAs P π c table) ∨
      owner ∉ cs.map ClassDecl.name ∧ tables.get? owner = some table := by
  induction cs generalizing tables with
  | nil =>
    unfold resolveClasses at h
    rw [within_pure.1 h] at ht
    exact Or.inr ⟨List.not_mem_nil, ht⟩
  | cons c rest ih =>
    unfold resolveClasses at h
    obtain ⟨own, hown, hrest⟩ := within_bind.1 h
    rcases ih hrest with ⟨before, last, after, rfl, hname, hafter, hdecl⟩ | ⟨hnot, hget⟩
    · exact Or.inl ⟨c :: before, last, after, rfl, hname, hafter, hdecl⟩
    · rw [OrderedMap.get?_insert] at hget
      by_cases howner : owner = c.name
      · rw [if_pos howner] at hget
        obtain rfl : own = table := Option.some.inj hget
        exact Or.inl ⟨[], c, rest, rfl, howner.symm, hnot, within_resolveClass.1 hown⟩
      · rw [if_neg howner] at hget
        refine Or.inr ⟨?_, hget⟩
        rw [List.map_cons, List.mem_cons, not_or]
        exact ⟨howner, hnot⟩

/-- A member that is missing in the table under the name of its class is one that the last class
with this name does not have. -/
theorem shadowed_of_missing {p : Program} {tables : Tables}
    (h : Within P (resolveClasses π ∅ p.classes) tables) {c : ClassDecl} (hc : c ∈ p.classes)
    {table : ClassTable} (htable : tables.get? c.name = some table) {i : Nat}
    (hi : table.constructors.length ≤ i ∧ i < c.constructors.length ∨
      table.methods.length ≤ i ∧ i < c.methods.length) : p.Shadowed c.name i := by
  rcases exists_last_class_of_get? h htable with
    ⟨before, last, after, hcs, hname, hafter, hdecl⟩ | ⟨-, hempty⟩
  · have hks := hdecl.constructors.length_eq
    have hms := hdecl.methods.length_eq
    rw [hcs, List.mem_append, List.mem_cons] at hc
    rcases hc with hc | rfl | hc
    · obtain ⟨front, between, rfl⟩ := List.append_of_mem hc
      refine ⟨front, c, between, last, after, ?_, rfl, hname, hafter, ?_⟩
      · rw [hcs, List.append_assoc, List.cons_append]
      · rw [hks, hms]
        exact hi
    · -- The last class has all its members in its own table.
      omega
    · exact absurd (List.mem_map_of_mem hc) hafter
  · cases hempty

/-- The table stands under the name of the class and has one entry for each of its constructors and
methods: the signature that its own declaration resolves to, and the one that it is checked
against. -/
structure OwnTable (π : Policy) (tables : Tables) (c : ClassDecl) (table : ClassTable) : Prop where
  get? : tables.get? c.name = some table
  constructors_length : table.constructors.length = c.constructors.length
  methods_length : table.methods.length = c.methods.length
  constructor : ∀ i k, c.constructors[i]? = some k → ∃ resolved d,
    table.constructors[i]? = some resolved ∧ Yields (resolveConstructor π c i k) resolved d ∧
    checkConstructor ⟨π, tables⟩ c i k = checkConstructorAs ⟨π, tables⟩ c i k table resolved
  method : ∀ i m, c.methods[i]? = some m → ∃ resolved d,
    table.methods[i]? = some resolved ∧ Yields (resolveMethod π c m) resolved d ∧
    checkMethod ⟨π, tables⟩ c i m = checkMethodAs ⟨π, tables⟩ c m resolved

theorem exists_ownTable {cs : List ClassDecl} {tables : Tables}
    (h : Within P (resolveClasses π ∅ cs) tables) (hn : (cs.map ClassDecl.name).Nodup)
    {c : ClassDecl} (hc : c ∈ cs) : ∃ table, OwnTable π tables c table := by
  obtain ⟨table, htable, hdecl⟩ := get?_of_mem h hn hc
  refine ⟨table, htable, hdecl.constructors.length_eq.symm, hdecl.methods.length_eq.symm, ?_, ?_⟩
  · intro i k hk
    obtain ⟨resolved, hr, hkr⟩ := getElem?_of_forall₂ hdecl.constructors hk
    have hrun : Within P (resolveConstructor π c i k) resolved := within_resolveConstructor.2 hkr
    obtain ⟨d, hd, -⟩ := hrun
    exact ⟨resolved, d, hr, hd, checkConstructor_of_getElem? htable hr k⟩
  · intro i m hm
    obtain ⟨resolved, hr, hmr⟩ := getElem?_of_forall₂ hdecl.methods hm
    obtain ⟨d, hd, -⟩ := within_resolveMethod.2 hmr
    exact ⟨resolved, d, hr, hd, checkMethod_of_getElem? htable hr m⟩

end OwnTables

end Checker

/-! ## Programs -/

open Checker

namespace Program

variable {π : Policy} {p : Program} {f : Fault}

/-- A check ends in a fault of the program, or at a member of a class that a later class with the
same name does not have. -/
theorem ofProgram_or_shadowed (hπ : Stage.generic ∈ π.stages) (h : p.check π = .error f) :
    f.OfProgram ∨ ∃ owner i, f = .staleMember owner i ∧ p.Shadowed owner i := by
  rcases fails_bind.1 (check_eq_error.1 h) with hfirst | ⟨tables, d, hfirst, hsecond⟩
  · exact Or.inl (faultsIn_resolveClasses hπ _ _ f hfirst)
  · obtain ⟨c, hc, hfail⟩ := exists_class_of_fails hsecond
    rcases fails_checkClass hπ hfail with hf | ⟨table, i, htable, rfl, hi⟩
    · exact Or.inl hf
    · exact Or.inr ⟨c.name, i, rfl, shadowed_of_missing hfirst.within hc htable hi⟩

theorem not_shadowed_of_nodup (hn : (p.classes.map ClassDecl.name).Nodup) (owner : String)
    (i : Nat) : ¬ p.Shadowed owner i := by
  rintro ⟨before, c, between, last, after, hcs, hc, hlast, -⟩
  rw [hcs, List.map_append, List.map_cons, List.map_append, List.map_cons] at hn
  have htail := (List.nodup_append.1 hn).2.1
  apply (List.nodup_cons.1 htail).1
  rw [hc, ← hlast]
  simp

end Program

/-- With the generic stage among the stages, a check ends in no other fault than one of the program
or at a member of a shadowed class. With class names that differ the second cannot happen, and every
constructor and method is checked against the signature of its own declaration. -/
theorem faults_of_check (π : Policy) (hπ : Stage.generic ∈ π.stages) (p : Program) :
    (∀ f, p.check π = .error f → f.OfProgram ∨ ∃ owner i, f = .staleMember owner i) ∧
    ((p.classes.map ClassDecl.name).Nodup →
      (∀ f, p.check π = .error f → f.OfProgram) ∧
      ∀ tables d, Yields (resolveClasses π ∅ p.classes) tables d →
        ∀ c ∈ p.classes, ∃ table, OwnTable π tables c table) ∧
    ∀ owner i, p.check π = .error (.staleMember owner i) → p.Shadowed owner i := by
  refine ⟨?_, ?_, ?_⟩
  · intro f hf
    rcases Program.ofProgram_or_shadowed hπ hf with h | ⟨owner, i, rfl, -⟩
    · exact Or.inl h
    · exact Or.inr ⟨owner, i, rfl⟩
  · intro hn
    refine ⟨fun f hf => ?_, fun tables d h c hc => exists_ownTable h.within hn hc⟩
    rcases Program.ofProgram_or_shadowed hπ hf with h | ⟨owner, i, -, hshadow⟩
    · exact h
    · exact absurd hshadow (Program.not_shadowed_of_nodup hn owner i)
  · intro owner i hf
    rcases Program.ofProgram_or_shadowed hπ hf with h | ⟨owner', i', heq, hshadow⟩
    · cases h
    · cases heq
      exact hshadow

/-- A policy with stages in an unusual order, one of them twice. -/
def terseStages : Policy :=
  ⟨.standard, [.generic, .nullLiteral, .staticField, .generic]⟩

/-- Two methods with the same name and number of parameters; each body fits its own signature
only. -/
def keepMethod (qualifier : String) : MethodDecl where
  name := "keep"
  isStatic := false
  receiverText := none
  params := [⟨"x", .declared "Box", some qualifier⟩]
  returns := some (.declared "Box")
  returnText := some qualifier
  body := [.exit (some (.var "x"))]

def boxClass : ClassDecl where
  name := "Box"
  fields := []
  constructors := [⟨none, [], []⟩]
  methods := [keepMethod "@Immutable", keepMethod "@Mutable"]

/-- The second of two methods with the same name and number of parameters is checked against its
own signature. A class without members that takes the name of the box leaves its first constructor
without a signature. -/
theorem faults_of_check_boxClass :
    (∃ tables d table resolved e,
      Yields (resolveClasses terseStages ∅ [boxClass]) tables d ∧
      tables.get? "Box" = some table ∧ table.methods[1]? = some resolved ∧
      Yields (resolveMethod terseStages boxClass (keepMethod "@Mutable")) resolved e ∧
      resolved.signature.params = [.mutable] ∧
      checkMethod ⟨terseStages, tables⟩ boxClass 1 (keepMethod "@Mutable") =
        checkMethodAs ⟨terseStages, tables⟩ boxClass (keepMethod "@Mutable") resolved) ∧
    (Program.mk [boxClass, ⟨"Box", [], [], []⟩]).check terseStages =
      .error (.staleMember "Box" 0) ∧
    (Program.mk [boxClass, ⟨"Box", [], [], []⟩]).Shadowed "Box" 0 := by
  have hgeneric : Stage.generic ∈ terseStages.stages := by decide
  have hstale : (Program.mk [boxClass, ⟨"Box", [], [], []⟩]).check terseStages =
      .error (.staleMember "Box" 0) := by
    decide +kernel
  refine ⟨?_, hstale, (faults_of_check terseStages hgeneric _).2.2 "Box" 0 hstale⟩
  have hruns : ((resolveClasses terseStages ∅ [boxClass]).run ∅).isOk = true := by decide +kernel
  have hparams : ((resolveMethod terseStages boxClass (keepMethod "@Mutable")).run ∅).map
      (fun x => x.1.signature.params) = .ok [.mutable] := by decide +kernel
  cases hfirst : (resolveClasses terseStages ∅ [boxClass]).run ∅ with
  | error f => rw [hfirst] at hruns; cases hruns
  | ok x =>
    obtain ⟨tables, d⟩ := x
    obtain ⟨-, hown⟩ := (faults_of_check terseStages hgeneric ⟨[boxClass]⟩).2.1 (by decide)
    obtain ⟨table, htable⟩ := hown tables d hfirst boxClass List.mem_cons_self
    obtain ⟨resolved, e, hr, he, hcheck⟩ := htable.method 1 _ rfl
    refine ⟨tables, d, table, resolved, e, hfirst, htable.get?, hr, he, ?_, hcheck⟩
    have he' : (resolveMethod terseStages boxClass (keepMethod "@Mutable")).run ∅ =
      .ok (resolved, e) := he
    rw [he'] at hparams
    exact Except.ok.inj hparams

end Mutability
