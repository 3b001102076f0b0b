import Mutability.Checker.Unit
import Mutability.Proofs.Accumulation

/-!
# The steps of the checker

Every function of the checker is a sequence of a few basic steps: a look-up that may end in a fault,
diagnostics about one member, and records of a position, of a constructor or of a class. Where a
function chooses between such steps, an equation here says what it does without the choice. All
functions are `Additive`, so that a run can be taken apart step by step.
-/

namespace Mutability

/-- Induction over expressions, with the arguments of calls taken one by one. -/
@[elab_as_elim]
theorem Expr.inductionOn {motive : Expr → Prop} (e : Expr) (self : motive .self)
    (null : motive .null) (literal : ∀ host, motive (.literal host))
    (var : ∀ name, motive (.var name))
    (fieldRead : ∀ receiver field, motive receiver → motive (.fieldRead receiver field))
    (create : ∀ className text args, (∀ a ∈ args, motive a) →
      motive (.create className text args))
    (call : ∀ receiver method args, motive receiver → (∀ a ∈ args, motive a) →
      motive (.call receiver method args))
    (staticCall : ∀ className method args, (∀ a ∈ args, motive a) →
      motive (.staticCall className method args))
    (cast : ∀ host text operand, motive operand → motive (.cast host text operand))
    (binary : ∀ host lhs rhs, motive lhs → motive rhs → motive (.binary host lhs rhs)) :
    motive e := by
  refine @Expr.rec motive (fun args => ∀ a ∈ args, motive a)
    self null literal var fieldRead create call staticCall cast binary ?_ ?_ e
  · intro a ha
    cases ha
  · intro x rest hx hrest a ha
    rcases List.mem_cons.1 ha with rfl | ha
    · exact hx
    · exact hrest a ha

/-- The qualifier that a value has on a type: `immutable` where only that is possible. -/
def Configuration.settled (c : Configuration) (host : HostType) (q : Qualifier) : Qualifier :=
  if c.isImplicitlyImmutable host then .immutable else q

namespace Checker

/-! ## Look-ups -/

/-- What is there, or the fault that it is not. -/
def orFault {α : Type} (f : Fault) : Option α → Except Fault α
  | some a => .ok a
  | none => .error f

theorem orFault_eq_ok {α : Type} {f : Fault} {o : Option α} {a : α} :
    orFault f o = .ok a ↔ o = some a := by
  cases o with
  | none => simp [orFault]
  | some b => simp [orFault]

theorem Tables.table_eq (ts : Tables) (owner : String) :
    ts.table owner = orFault (.unknownClass owner) (ts.get? owner) := by
  unfold Tables.table
  cases ts.get? owner <;> rfl

theorem Tables.field_eq (ts : Tables) (host : HostType) (name : String) :
    ts.field host name = (do
      let owner ← className host
      let table ← ts.table owner
      orFault (.unknownField owner name) (table.fields.get? name)) := by
  unfold Tables.field
  refine bind_congr fun owner => bind_congr fun table => ?_
  cases table.fields.get? name <;> rfl

theorem Tables.method_eq (ts : Tables) (owner name : String) (arity : Nat) :
    ts.method owner name arity = (do
      let table ← ts.table owner
      orFault (.unknownMethod owner name arity)
        (table.methods.find? fun m => m.signature.name = name ∧ m.params.length = arity)) := by
  unfold Tables.method
  refine bind_congr fun table => ?_
  cases table.methods.find? fun m => m.signature.name = name ∧ m.params.length = arity <;> rfl

theorem Tables.constructor_eq (ts : Tables) (owner : String) (arity : Nat) :
    ts.constructor owner arity = (do
      let table ← ts.table owner
      orFault (.unknownConstructor owner arity)
        (table.constructors.find? fun k => k.params.length = arity)) := by
  unfold Tables.constructor
  refine bind_congr fun table => ?_
  cases table.constructors.find? fun k => k.params.length = arity <;> rfl

theorem Scope.self_eq (s : Scope) : s.self = orFault (.selfInStatic s.location) s.receiver := by
  unfold Scope.self
  cases s.receiver <;> rfl

theorem Scope.var_eq (s : Scope) (name : String) :
    s.var name = orFault (.unknownVariable name s.location) (s.vars.get? name) := by
  unfold Scope.var
  cases s.vars.get? name <;> rfl

/-- The constructor with a number. -/
def ClassTable.constructorAt (table : ClassTable) (className : String) (index : Nat) :
    Except Fault ResolvedConstructor :=
  orFault (.staleMember className index) table.constructors[index]?

/-- The method with a number. -/
def ClassTable.methodAt (table : ClassTable) (className : String) (index : Nat) :
    Except Fault ResolvedMethod :=
  orFault (.staleMember className index) table.methods[index]?

/-! ## Declarations -/

/-- A position that has a qualifier is declared with it. -/
theorem Declared.ofPosition_eq_ok {p : Position} {d : Declared} :
    ofPosition p = .ok d ↔ d.position = p := by
  unfold ofPosition
  split
  case h_1 q hq =>
    constructor
    · rintro ⟨⟩
      rfl
    · obtain ⟨position, q', hd⟩ := d
      rintro rfl
      obtain rfl : q' = q := Option.some.inj (hd.symm.trans hq)
      rfl
  case h_2 hnone =>
    constructor
    · rintro ⟨⟩
    · rintro rfl
      rw [d.qualifier?_position] at hnone
      cases hnone

theorem Declared.qualifierOf_eq_ok {π : Policy} {p : Position} (d : Declared)
    (h : d.position = π.annotate p) : π.qualifierOf p = .ok d.qualifier := by
  unfold Policy.qualifierOf
  dsimp only
  rw [← h, d.qualifier?_position]

instance additive_declare (π : Policy) (l : Location) (kind : Position.Kind) (host : HostType)
    (text : Option String) : Additive (declare π l kind host text) := by
  unfold declare validate
  infer_instance

instance additive_resolveParams (π : Policy) (l : Location) (method : String) (index : Nat)
    (ps : List ParamDecl) : Additive (resolveParams π l method index ps) := by
  induction ps generalizing index with
  | nil => exact additive_pure []
  | cons p rest ih =>
    have := ih (index + 1)
    unfold resolveParams
    infer_instance

instance additive_resolveField (π : Policy) (c : ClassDecl) (f : FieldDecl) :
    Additive (resolveField π c f) := by
  unfold resolveField
  infer_instance

instance additive_resolveFields (π : Policy) (c : ClassDecl)
    (fields : OrderedMap String ResolvedField) (fs : List FieldDecl) :
    Additive (resolveFields π c fields fs) := by
  induction fs generalizing fields with
  | nil => exact additive_pure fields
  | cons f rest ih =>
    have hrest : ∀ resolved, Additive (resolveFields π c (fields.insert f.name resolved) rest) :=
      fun resolved => ih _
    unfold resolveFields
    infer_instance

instance additive_resolveConstructor (π : Policy) (c : ClassDecl) (index : Nat)
    (k : ConstructorDecl) : Additive (resolveConstructor π c index k) := by
  unfold resolveConstructor
  infer_instance

instance additive_resolveConstructors (π : Policy) (c : ClassDecl) (index : Nat)
    (ks : List ConstructorDecl) : Additive (resolveConstructors π c index ks) := by
  induction ks generalizing index with
  | nil => exact additive_pure []
  | cons k rest ih =>
    have := ih (index + 1)
    unfold resolveConstructors
    infer_instance

instance additive_resolveReceiver (π : Policy) (c : ClassDecl) (m : MethodDecl) :
    Additive (resolveReceiver π c m) := by
  unfold resolveReceiver
  infer_instance

instance additive_resolveReturn (π : Policy) (c : ClassDecl) (m : MethodDecl) :
    Additive (resolveReturn π c m) := by
  unfold resolveReturn
  split <;> infer_instance

instance additive_resolveMethod (π : Policy) (c : ClassDecl) (m : MethodDecl) :
    Additive (resolveMethod π c m) := by
  unfold resolveMethod
  infer_instance

instance additive_resolveMethods (π : Policy) (c : ClassDecl) (ms : List MethodDecl) :
    Additive (resolveMethods π c ms) := by
  induction ms with
  | nil => exact additive_pure []
  | cons m rest ih =>
    unfold resolveMethods
    infer_instance

instance additive_resolveClass (π : Policy) (c : ClassDecl) : Additive (resolveClass π c) := by
  unfold resolveClass
  infer_instance

instance additive_resolveClasses (π : Policy) (tables : Tables) (cs : List ClassDecl) :
    Additive (resolveClasses π tables cs) := by
  induction cs generalizing tables with
  | nil => exact additive_pure tables
  | cons c rest ih =>
    have hrest : ∀ table, Additive (resolveClasses π (tables.insert c.name table) rest) :=
      fun table => ih _
    unfold resolveClasses
    infer_instance

/-! ## Expressions -/

/-- What is wrong with a qualifier where another one may be required. -/
def misfit (kind : Diagnostic.Kind) (found : Qualifier) : Option Qualifier → List Diagnostic
  | some required => if found ≤ required then [] else [.incompatible kind found required]
  | none => []

theorem emitAll_nil (l : Location) : emitAll l [] = pure () := by
  funext r
  show Except.ok ((), (⟨r.diagnostics ++ [], r.positions, r.constructors, r.objects⟩ : Report)) = _
  rw [List.append_nil]
  rfl

theorem checkExpr_call (env : Env) (s : Scope) (receiver : Expr) (name : String)
    (args : List Expr) :
    checkExpr env s (.call receiver name args) = (do
      let target ← checkExpr env s receiver
      let owner ← (liftM (className target.host) : Check String)
      let m ← (liftM (env.tables.method owner name args.length) : Check ResolvedMethod)
      let arguments ← checkArgs env s args
      emitAll s.location (misfit .methodInvocationInvalid target.qualifier
        (m.signature.seenFrom (some target.qualifier)).receiver)
      emitAll s.location (Construction.argumentDiagnostics id 0 arguments
        (m.signature.seenFrom (some target.qualifier)).params)
      return ⟨m.returns.getD .null, (m.signature.seenFrom (some target.qualifier)).ret⟩) := by
  rw [checkExpr]
  refine bind_congr fun target => bind_congr fun owner => bind_congr fun m =>
    bind_congr fun arguments => ?_
  dsimp only
  cases (m.signature.seenFrom (some target.qualifier)).receiver with
  | none => dsimp only [misfit]; rw [emitAll_nil]; rfl
  | some required => rfl

theorem additive_checkArgs_of {env : Env} {s : Scope} {args : List Expr}
    (h : ∀ a ∈ args, Additive (checkExpr env s a)) : Additive (checkArgs env s args) := by
  induction args with
  | nil => rw [checkArgs]; infer_instance
  | cons e rest ih =>
    have he := h e List.mem_cons_self
    have hrest := ih fun a ha => h a (List.mem_cons_of_mem e ha)
    rw [checkArgs]
    infer_instance

instance additive_checkExpr (env : Env) (s : Scope) (e : Expr) : Additive (checkExpr env s e) := by
  induction e using Expr.inductionOn with
  | self => rw [checkExpr]; infer_instance
  | null => rw [checkExpr]; infer_instance
  | literal host => rw [checkExpr]; infer_instance
  | var name => rw [checkExpr]; infer_instance
  | fieldRead receiver field ih => rw [checkExpr]; infer_instance
  | create className text args ih =>
    have := additive_checkArgs_of ih
    rw [checkExpr]
    unfold validate
    infer_instance
  | call receiver method args ihr ih =>
    have := additive_checkArgs_of ih
    rw [checkExpr_call]
    infer_instance
  | staticCall className method args ih =>
    have := additive_checkArgs_of ih
    rw [checkExpr]
    unfold checkArguments
    infer_instance
  | cast host text operand ih =>
    rw [checkExpr]
    unfold validate
    infer_instance
  | binary host lhs rhs ihl ihr => rw [checkExpr]; infer_instance

instance additive_checkArgs (env : Env) (s : Scope) (args : List Expr) :
    Additive (checkArgs env s args) :=
  additive_checkArgs_of fun a _ => additive_checkExpr env s a

/-! ## Statements -/

theorem qualifier?_refine {π : Policy} {p : Position} (h : p.isExplicit = false) (q : Qualifier) :
    (π.refine p q).qualifier? = some (π.config.settled p.host q) := by
  unfold Policy.refine Position.replaceUnlessExplicit
  rw [h]
  rfl

theorem assignVar_eq (env : Env) (s : Scope) (declared : Position) (value : Qualifier) :
    assignVar env s declared value = (do
      let required ← (liftM (env.policy.qualifierOf declared) : Check Qualifier)
      if declared.isExplicit then
        emitAll s.location (misfit .assignmentTypeIncompatible value (some required))
        return required
      else return env.policy.config.settled declared.host value) := by
  unfold assignVar
  refine bind_congr fun required => ?_
  cases h : declared.isExplicit with
  | true => rfl
  | false =>
    show (match (env.policy.refine declared value).qualifier? with
      | some q => pure q
      | none => throw (Fault.missingQualifier (env.policy.refine declared value).kind)) = _
    rw [qualifier?_refine h]
    rfl

instance additive_assignVar (env : Env) (s : Scope) (declared : Position) (value : Qualifier) :
    Additive (assignVar env s declared value) := by
  rw [assignVar_eq]
  infer_instance

theorem checkStmt_exit_some (env : Env) (s : Scope) (e : Expr) :
    checkStmt env s (.exit (some e)) = (do
      let value ← checkExpr env s e
      emitAll s.location (misfit .returnTypeIncompatible value.qualifier s.returns)
      return s) := by
  unfold checkStmt
  refine bind_congr fun value => ?_
  cases s.returns with
  | none => dsimp only [misfit]; rw [emitAll_nil]; rfl
  | some required => rfl

instance additive_checkStmt (env : Env) (s : Scope) (stmt : Stmt) :
    Additive (checkStmt env s stmt) := by
  cases stmt with
  | localVar name host text init =>
    cases init with
    | none => unfold checkStmt; infer_instance
    | some e => unfold checkStmt; infer_instance
  | assign target value => unfold checkStmt; infer_instance
  | fieldWrite receiver name value => unfold checkStmt; infer_instance
  | eval e => unfold checkStmt; infer_instance
  | exit value =>
    cases value with
    | none => exact additive_pure s
    | some e => rw [checkStmt_exit_some]; infer_instance

instance additive_checkBody (env : Env) (s : Scope) (body : List Stmt) :
    Additive (checkBody env s body) := by
  induction body generalizing s with
  | nil => exact additive_pure s
  | cons stmt rest ih =>
    have := ih
    unfold checkBody
    infer_instance

/-! ## Members and classes -/

/-- What is known where the body of a constructor begins. -/
def constructorScope (c : ClassDecl) (index : Nat) (resolved : ResolvedConstructor) : Scope where
  location := constructorLocation c index
  receiver := some resolved.ret
  inConstructor := true
  returns := none
  vars := bindParams resolved.params
  written := []

/-- What is known where the body of a method begins. -/
def methodScope (c : ClassDecl) (m : MethodDecl) (resolved : ResolvedMethod) : Scope where
  location := ⟨c.name, m.name⟩
  receiver := resolved.signature.receiver
  inConstructor := false
  returns := if resolved.returns.isSome then some resolved.signature.ret else none
  vars := bindParams resolved.params
  written := []

/-- How a constructor leaves its object, by the fields that its body has written. -/
def summarize (c : ClassDecl) (index : Nat) (table : ClassTable) (resolved : ResolvedConstructor)
    (written : List String) : ConstructorSummary :=
  let missing := uninitialized table written
  ⟨constructorLocation c index, ⟨resolved.ret, finalState missing⟩, missing⟩

theorem checkConstructor_eq (env : Env) (c : ClassDecl) (index : Nat) (k : ConstructorDecl) :
    checkConstructor env c index k = (do
      let table ← (liftM (env.tables.table c.name) : Check ClassTable)
      let resolved ← (liftM (table.constructorAt c.name index) : Check ResolvedConstructor)
      emitAll (constructorLocation c index) (Construction.declarationDiagnostics resolved.ret
        (resolved.params.map fun p => p.declared.qualifier))
      let s ← checkBody env (constructorScope c index resolved) k.body
      return summarize c index table resolved s.written) := by
  unfold checkConstructor
  refine bind_congr fun table => ?_
  unfold ClassTable.constructorAt
  cases table.constructors[index]? with
  | none => rfl
  | some resolved => rfl

theorem checkMethod_eq (env : Env) (c : ClassDecl) (index : Nat) (m : MethodDecl) :
    checkMethod env c index m = (do
      let table ← (liftM (env.tables.table c.name) : Check ClassTable)
      let resolved ← (liftM (table.methodAt c.name index) : Check ResolvedMethod)
      let _ ← checkBody env (methodScope c m resolved) m.body
      return ()) := by
  unfold checkMethod
  refine bind_congr fun table => ?_
  unfold ClassTable.methodAt
  cases table.methods[index]? with
  | none => rfl
  | some resolved => rfl

instance additive_checkConstructor (env : Env) (c : ClassDecl) (index : Nat)
    (k : ConstructorDecl) : Additive (checkConstructor env c index k) := by
  rw [checkConstructor_eq]
  infer_instance

instance additive_checkMethod (env : Env) (c : ClassDecl) (index : Nat) (m : MethodDecl) :
    Additive (checkMethod env c index m) := by
  rw [checkMethod_eq]
  infer_instance

instance additive_recordSummary (summary : ConstructorSummary) :
    Additive (recordSummary summary) where
  run_eq r := by
    show Except.ok ((), Report.mk r.diagnostics r.positions (r.constructors ++ [summary]) r.objects)
      = .ok ((), Report.mk (r.diagnostics ++ []) (r.positions ++ []) (r.constructors ++ [summary])
        (r.objects.merge ∅))
    rw [List.append_nil, List.append_nil, OrderedMap.merge_empty]

instance additive_recordObject (className : String) (object : ObjectState) :
    Additive (recordObject className object) where
  run_eq r := by
    show Except.ok ((), Report.mk r.diagnostics r.positions r.constructors
        (r.objects.insert className object))
      = .ok ((), Report.mk (r.diagnostics ++ []) (r.positions ++ []) (r.constructors ++ [])
        (r.objects.merge ((∅ : OrderedMap _ _).insert className object)))
    rw [List.append_nil, List.append_nil, List.append_nil, OrderedMap.merge_insert,
      OrderedMap.merge_empty]

/-- Sets the state of a new object of a class, if there is one. -/
def recordObject? (className : String) : Option ObjectState → Check Unit
  | some object => recordObject className object
  | none => pure ()

instance additive_recordObject? (className : String) (object : Option ObjectState) :
    Additive (recordObject? className object) := by
  cases object with
  | none => exact additive_pure ()
  | some o => exact additive_recordObject className o

instance additive_checkConstructors (env : Env) (c : ClassDecl) (index : Nat)
    (ks : List ConstructorDecl) : Additive (checkConstructors env c index ks) := by
  induction ks generalizing index with
  | nil => exact additive_pure []
  | cons k rest ih =>
    have := ih (index + 1)
    unfold checkConstructors
    infer_instance

instance additive_checkMethods (env : Env) (c : ClassDecl) (index : Nat)
    (ms : List MethodDecl) : Additive (checkMethods env c index ms) := by
  induction ms generalizing index with
  | nil => exact additive_pure ()
  | cons m rest ih =>
    have := ih (index + 1)
    unfold checkMethods
    infer_instance

theorem checkClass_eq (env : Env) (c : ClassDecl) :
    checkClass env c = (do
      let objects ← checkConstructors env c 0 c.constructors
      recordObject? c.name (ObjectState.joinAll? objects)
      checkMethods env c 0 c.methods) := by
  unfold checkClass
  refine bind_congr fun objects => ?_
  cases ObjectState.joinAll? objects with
  | none => rfl
  | some object => rfl

instance additive_checkClass (env : Env) (c : ClassDecl) : Additive (checkClass env c) := by
  rw [checkClass_eq]
  infer_instance

instance additive_checkClasses (env : Env) (cs : List ClassDecl) :
    Additive (checkClasses env cs) := by
  induction cs with
  | nil => exact additive_pure ()
  | cons c rest ih =>
    unfold checkClasses
    infer_instance

end Checker

/-! ## Programs -/

open Checker

theorem Program.check_eq_ok {π : Policy} {p : Program} {r : Report} :
    p.check π = .ok r ↔ Yields (checkProgram π p) () r := by
  unfold Program.check Yields
  cases (checkProgram π p).run ∅ with
  | error f => simp
  | ok x => simp [Prod.ext_iff]

theorem Program.check_eq_error {π : Policy} {p : Program} {f : Fault} :
    p.check π = .error f ↔ Fails (checkProgram π p) f := by
  unfold Program.check Fails
  cases (checkProgram π p).run ∅ with
  | error g => simp
  | ok x => simp

/-- A program is checked if its classes resolve and their bodies are checked against the tables;
the report is what the first pass adds and then what the second one adds. -/
theorem Program.check_eq_ok_iff {π : Policy} {p : Program} {r : Report} :
    p.check π = .ok r ↔ ∃ tables d₁ d₂, Yields (resolveClasses π ∅ p.classes) tables d₁ ∧
      Yields (checkClasses ⟨π, tables⟩ p.classes) () d₂ ∧ r = d₁ ++ d₂ := by
  rw [Program.check_eq_ok]
  exact yields_bind

end Mutability
