import Mutability.Proofs.Locality

/-!
# Checking is modular

What is reported about a class depends on the class and on the interfaces of the classes that its
program has, not on their bodies, their order, or what other classes there are
(`report_on_class_modular`). Two facts make this up. The first pass reads nothing of a class but
its interface, so the tables of a program are among those of any program that has the same
interfaces (`extends_of_interfaces`). And a computation that succeeds against some tables does the
same against any that extend them (`refines_checkClass`): it has found every name it has looked
for, and where a name is looked up in a class it is looked up in that class alone.
-/

namespace Mutability

/-! ## Interfaces -/

/-- The constructor without its body. -/
def ConstructorDecl.interface (k : ConstructorDecl) : ConstructorDecl :=
  { k with body := [] }

/-- The method without its body. -/
def MethodDecl.interface (m : MethodDecl) : MethodDecl :=
  { m with body := [] }

/-- The class without the bodies of its members. -/
def ClassDecl.interface (c : ClassDecl) : ClassDecl where
  name := c.name
  fields := c.fields
  constructors := c.constructors.map ConstructorDecl.interface
  methods := c.methods.map MethodDecl.interface

namespace Checker

section

variable (π : Policy) (c : ClassDecl)

theorem resolveFields_interface (fields : OrderedMap String ResolvedField) (fs : List FieldDecl) :
    resolveFields π c.interface fields fs = resolveFields π c fields fs := by
  induction fs generalizing fields with
  | nil => rfl
  | cons f rest ih =>
    unfold resolveFields
    simp only [ih]
    rfl

theorem resolveConstructors_interface (index : Nat) (ks : List ConstructorDecl) :
    resolveConstructors π c.interface index (ks.map ConstructorDecl.interface) =
      resolveConstructors π c index ks := by
  induction ks generalizing index with
  | nil => rfl
  | cons k rest ih =>
    rw [List.map_cons]
    unfold resolveConstructors
    simp only [ih]
    rfl

theorem resolveMethods_interface (ms : List MethodDecl) :
    resolveMethods π c.interface (ms.map MethodDecl.interface) = resolveMethods π c ms := by
  induction ms with
  | nil => rfl
  | cons m rest ih =>
    rw [List.map_cons]
    unfold resolveMethods
    simp only [ih]
    rfl

/-- The first pass reads the interface of a class only. -/
theorem resolveClass_interface : resolveClass π c.interface = resolveClass π c := by
  unfold resolveClass
  rw [resolveFields_interface]
  refine bind_congr fun fields => ?_
  rw [show c.interface.constructors = c.constructors.map ConstructorDecl.interface from rfl,
    resolveConstructors_interface]
  refine bind_congr fun ks => ?_
  rw [show c.interface.methods = c.methods.map MethodDecl.interface from rfl,
    resolveMethods_interface]

end

/-- Every table of the first tables is among the second ones, under the same name. -/
def Extends (ts ts' : Tables) : Prop :=
  ∀ owner table, ts.get? owner = some table → ts'.get? owner = some table

theorem extends_of_interfaces {P : Diagnostic → Prop} {π : Policy} {cs cs' : List ClassDecl}
    {ts ts' : Tables} (h : Within P (resolveClasses π ∅ cs) ts)
    (h' : Within P (resolveClasses π ∅ cs') ts') (hn' : (cs'.map ClassDecl.name).Nodup)
    (hsub : ∀ c ∈ cs, ∃ c' ∈ cs', c'.interface = c.interface) : Extends ts ts' := by
  intro owner table htable
  rcases exists_class_of_get? h htable with ⟨c, hc, rfl, hdecl⟩ | hempty
  · obtain ⟨c', hc', hinterface⟩ := hsub c hc
    obtain ⟨table', htable', hdecl'⟩ := get?_of_mem h' hn' hc'
    -- The two tables come from one computation, the one on the interface that the classes share.
    have hrun : Within P (resolveClass π c) table := within_resolveClass.2 hdecl
    have hrun' : Within P (resolveClass π c') table' := within_resolveClass.2 hdecl'
    rw [← resolveClass_interface, hinterface, resolveClass_interface] at hrun'
    obtain rfl := hrun.unique hrun'
    have hname : c'.interface.name = c.interface.name := by rw [hinterface]
    rw [show c.name = c'.name from hname.symm]
    exact htable'
  · cases hempty

/-! ## Larger tables -/

/-- If the first computation ends with a value, the second one does the same. -/
def Refines {α : Type} (m m' : Check α) : Prop :=
  ∀ a d, Yields m a d → Yields m' a d

section

variable {α β : Type}

theorem Refines.refl (m : Check α) : Refines m m := fun _ _ h => h

theorem Refines.bind {m m' : Check α} {k k' : α → Check β} [∀ a, Additive (k a)]
    [∀ a, Additive (k' a)] (hm : Refines m m') (hk : ∀ a, Refines (k a) (k' a)) :
    Refines (m >>= k) (m' >>= k') := by
  intro b d h
  obtain ⟨a, d₁, d₂, h₁, h₂, rfl⟩ := yields_bind.1 h
  exact yields_bind.2 ⟨a, d₁, d₂, hm a d₁ h₁, hk a b d₂ h₂, rfl⟩

theorem refines_lift {x x' : Except Fault α} (h : ∀ a, x = .ok a → x' = .ok a) :
    Refines (liftM x : Check α) (liftM x') := by
  intro a d hd
  obtain ⟨hx, rfl⟩ := yields_lift.1 hd
  exact yields_lift.2 ⟨h a hx, rfl⟩

end

section

variable {ts ts' : Tables} (hts : Extends ts ts')

include hts

theorem Extends.table (owner : String) :
    Refines (liftM (ts.table owner) : Check ClassTable) (liftM (ts'.table owner)) :=
  refines_lift fun table h => Tables.table_eq_ok.2 (hts owner table (Tables.table_eq_ok.1 h))

theorem Extends.field (host : HostType) (name : String) :
    Refines (liftM (ts.field host name) : Check ResolvedField) (liftM (ts'.field host name)) := by
  refine refines_lift fun f h => ?_
  obtain ⟨owner, hhost, table, htable, hf⟩ := Tables.field_eq_ok.1 h
  exact Tables.field_eq_ok.2 ⟨owner, hhost, table, hts owner table htable, hf⟩

theorem Extends.method (owner name : String) (arity : Nat) :
    Refines (liftM (ts.method owner name arity) : Check ResolvedMethod)
      (liftM (ts'.method owner name arity)) := by
  refine refines_lift fun m h => ?_
  obtain ⟨table, htable, hm⟩ := Tables.method_eq_ok.1 h
  exact Tables.method_eq_ok.2 ⟨table, hts owner table htable, hm⟩

theorem Extends.constructor (owner : String) (arity : Nat) :
    Refines (liftM (ts.constructor owner arity) : Check ResolvedConstructor)
      (liftM (ts'.constructor owner arity)) := by
  refine refines_lift fun k h => ?_
  obtain ⟨table, htable, hk⟩ := Tables.constructor_eq_ok.1 h
  exact Tables.constructor_eq_ok.2 ⟨table, hts owner table htable, hk⟩

variable {π : Policy} (s : Scope)

omit hts in
theorem refines_checkArgs_of {args : List Expr}
    (h : ∀ a ∈ args, Refines (checkExpr ⟨π, ts⟩ s a) (checkExpr ⟨π, ts'⟩ s a)) :
    Refines (checkArgs ⟨π, ts⟩ s args) (checkArgs ⟨π, ts'⟩ s args) := by
  induction args with
  | nil =>
    rw [checkArgs, checkArgs]
    exact .refl _
  | cons e rest ih =>
    rw [checkArgs, checkArgs]
    refine (h e List.mem_cons_self).bind fun t => ?_
    exact (ih fun a ha => h a (List.mem_cons_of_mem e ha)).bind fun qs => .refl _

theorem refines_checkExpr (e : Expr) :
    Refines (checkExpr ⟨π, ts⟩ s e) (checkExpr ⟨π, ts'⟩ s e) := by
  induction e using Expr.inductionOn with
  | self => rw [checkExpr, checkExpr]; exact .refl _
  | null => rw [checkExpr, checkExpr]; exact .refl _
  | literal host => rw [checkExpr, checkExpr]; exact .refl _
  | var name => rw [checkExpr, checkExpr]; exact .refl _
  | fieldRead receiver name ih =>
    rw [checkExpr, checkExpr]
    exact ih.bind fun t => (hts.field _ _).bind fun f => .refl _
  | create owner text args ih =>
    rw [checkExpr, checkExpr]
    unfold validate
    refine (hts.constructor _ _).bind fun k => (Refines.refl _).bind fun requested => ?_
    refine (Refines.refl _).bind fun _ => ?_
    exact (refines_checkArgs_of s ih).bind fun qs => .refl _
  | call receiver name args ihr ih =>
    rw [checkExpr_call, checkExpr_call]
    refine ihr.bind fun t => (Refines.refl _).bind fun owner => ?_
    refine (hts.method _ _ _).bind fun m => ?_
    exact (refines_checkArgs_of s ih).bind fun qs => .refl _
  | staticCall owner name args ih =>
    rw [checkExpr, checkExpr]
    unfold checkArguments
    refine (hts.method _ _ _).bind fun m => ?_
    exact (refines_checkArgs_of s ih).bind fun qs => .refl _
  | cast host text operand ih =>
    rw [checkExpr, checkExpr]
    unfold validate
    exact ih.bind fun t => .refl _
  | binary host lhs rhs ihl ihr =>
    rw [checkExpr, checkExpr]
    exact ihl.bind fun l => ihr.bind fun r => .refl _

theorem refines_checkStmt (stmt : Stmt) :
    Refines (checkStmt ⟨π, ts⟩ s stmt) (checkStmt ⟨π, ts'⟩ s stmt) := by
  cases stmt with
  | localVar name host text init =>
    cases init with
    | none => exact .refl _
    | some e =>
      unfold checkStmt
      refine (Refines.refl _).bind fun d => (refines_checkExpr hts s e).bind fun t => ?_
      exact (Refines.refl _).bind fun q => .refl _
  | assign target e =>
    unfold checkStmt
    refine (Refines.refl _).bind fun v => (refines_checkExpr hts s e).bind fun t => ?_
    exact (Refines.refl _).bind fun q => .refl _
  | fieldWrite receiver name e =>
    unfold checkStmt
    refine (refines_checkExpr hts s receiver).bind fun t => (hts.field _ _).bind fun f => ?_
    exact (refines_checkExpr hts s e).bind fun value => .refl _
  | eval e =>
    unfold checkStmt
    exact (refines_checkExpr hts s e).bind fun t => .refl _
  | exit value =>
    cases value with
    | none => exact .refl _
    | some e =>
      rw [checkStmt_exit_some, checkStmt_exit_some]
      exact (refines_checkExpr hts s e).bind fun t => .refl _

theorem refines_checkBody (body : List Stmt) :
    Refines (checkBody ⟨π, ts⟩ s body) (checkBody ⟨π, ts'⟩ s body) := by
  induction body generalizing s with
  | nil => exact .refl _
  | cons stmt rest ih =>
    unfold checkBody
    exact (refines_checkStmt hts s stmt).bind fun next => ih next

theorem refines_checkConstructors (c : ClassDecl) (index : Nat) (ks : List ConstructorDecl) :
    Refines (checkConstructors ⟨π, ts⟩ c index ks) (checkConstructors ⟨π, ts'⟩ c index ks) := by
  induction ks generalizing index with
  | nil => exact .refl _
  | cons k rest ih =>
    have hk : Refines (checkConstructor ⟨π, ts⟩ c index k)
        (checkConstructor ⟨π, ts'⟩ c index k) := by
      rw [checkConstructor_eq, checkConstructor_eq]
      refine (hts.table _).bind fun table => (Refines.refl _).bind fun r => ?_
      refine (Refines.refl _).bind fun _ => ?_
      exact (refines_checkBody hts _ k.body).bind fun s => .refl _
    unfold checkConstructors
    refine hk.bind fun summary => (Refines.refl _).bind fun _ => ?_
    exact (ih (index + 1)).bind fun objects => .refl _

theorem refines_checkMethods (c : ClassDecl) (index : Nat) (ms : List MethodDecl) :
    Refines (checkMethods ⟨π, ts⟩ c index ms) (checkMethods ⟨π, ts'⟩ c index ms) := by
  induction ms generalizing index with
  | nil => exact .refl _
  | cons m rest ih =>
    have hm : Refines (checkMethod ⟨π, ts⟩ c index m) (checkMethod ⟨π, ts'⟩ c index m) := by
      rw [checkMethod_eq, checkMethod_eq]
      refine (hts.table _).bind fun table => (Refines.refl _).bind fun r => ?_
      exact (refines_checkBody hts _ m.body).bind fun s => .refl _
    unfold checkMethods
    exact hm.bind fun _ => ih (index + 1)

/-- What a class is found to be against some tables, it is against all that extend them. -/
theorem refines_checkClass (c : ClassDecl) :
    Refines (checkClass ⟨π, ts⟩ c) (checkClass ⟨π, ts'⟩ c) := by
  rw [checkClass_eq, checkClass_eq]
  refine (refines_checkConstructors hts c 0 c.constructors).bind fun objects => ?_
  exact (Refines.refl _).bind fun _ => refines_checkMethods hts c 0 c.methods

end

end Checker

/-! ## Programs -/

open Checker

theorem Program.on_eq_of_interfaces {π : Policy} {p p' : Program} {r r' : Report}
    (hn : (p.classes.map ClassDecl.name).Nodup) (hn' : (p'.classes.map ClassDecl.name).Nodup)
    (h : p.check π = .ok r) (h' : p'.check π = .ok r')
    (hsub : ∀ c ∈ p.classes, ∃ c' ∈ p'.classes, c'.interface = c.interface) {c : ClassDecl}
    (hc : c ∈ p.classes) (hc' : c ∈ p'.classes) : r.on c.name = r'.on c.name := by
  obtain ⟨ts, d₁, d₂, hfirst, hsecond, rfl⟩ := Program.check_eq_ok_iff.1 h
  obtain ⟨ts', d₁', d₂', hfirst', hsecond', rfl⟩ := Program.check_eq_ok_iff.1 h'
  have hts := extends_of_interfaces hfirst.within hfirst'.within hn' hsub
  have hon₁ : d₁.on c.name = d₁'.on c.name := by
    obtain ⟨table, e, he, hon⟩ := on_resolveClasses hfirst hn hc
    obtain ⟨table', e', he', hon'⟩ := on_resolveClasses hfirst' hn' hc'
    rw [hon, hon', (he.unique he').2]
  have hon₂ : d₂.on c.name = d₂'.on c.name := by
    obtain ⟨e, he, hon⟩ := on_checkClasses hsecond hn hc
    obtain ⟨e', he', hon'⟩ := on_checkClasses hsecond' hn' hc'
    rw [hon, hon', ((refines_checkClass hts c () e he).unique he').2]
  rw [Report.on_append, Report.on_append, hon₁, hon₂]

/-- Two programs are checked under one policy, and the second has every interface of the first, in
any order and with any bodies, and perhaps further classes. Then the two reports say the same about
each class that stands in both with the same bodies. -/
theorem report_on_class_modular (π : Policy) (p p' : Program) (r r' : Report)
    (hn : (p.classes.map ClassDecl.name).Nodup) (hn' : (p'.classes.map ClassDecl.name).Nodup)
    (h : p.check π = .ok r) (h' : p'.check π = .ok r')
    (hsub : ∀ c ∈ p.classes, ∃ c' ∈ p'.classes, c'.interface = c.interface) (c : ClassDecl)
    (hc : c ∈ p.classes) (hc' : c ∈ p'.classes) :
    r.diagnostics.filter (fun x => x.location.className = c.name) =
        r'.diagnostics.filter (fun x => x.location.className = c.name) ∧
      r.constructors.filter (fun x => x.location.className = c.name) =
        r'.constructors.filter (fun x => x.location.className = c.name) ∧
      r.objects.get? c.name = r'.objects.get? c.name := by
  have hon := Program.on_eq_of_interfaces hn hn' h h' hsub hc hc'
  exact ⟨congrArg ClassReport.diagnostics hon, congrArg ClassReport.constructors hon,
    congrArg ClassReport.object hon⟩

/-- An account, by the body of its only method. -/
def accountClass (body : List Stmt) : ClassDecl where
  name := "Account"
  fields := [⟨"balance", .primitive .int, none, false, false, false⟩]
  constructors := [
    ⟨some "@Mutable", [], [.fieldWrite .self "balance" (.literal (.primitive .int))]⟩]
  methods := [
    { name := "deposit", isStatic := false, receiverText := some "@Mutable"
      params := [⟨"amount", .primitive .int, none⟩], returns := none, returnText := none
      body := body }]

/-- A client that deposits into an account it may only read, with a field that its constructor does
not set. -/
def clientClass : ClassDecl where
  name := "Client"
  fields := [⟨"account", .declared "Account", some "@Immutable", false, true, false⟩]
  constructors := [⟨some "@Mutable", [], []⟩]
  methods := [
    { name := "pay", isStatic := true, receiverText := none
      params := [⟨"a", .declared "Account", some "@Readonly"⟩], returns := none, returnText := none
      body := [.eval (.call (.var "a") "deposit" [.literal (.primitive .int)])] }]

/-- The client, before an account whose method writes through a receiver it may only read. -/
def clientFirst : Program :=
  ⟨[clientClass, accountClass [
    .fieldWrite (.cast (.declared "Account") (some "@Readonly") .self) "balance" (.var "amount")]]⟩

/-- The same client, after an account whose method does nothing and another class. -/
def clientLast : Program :=
  ⟨[{ name := "Audit", fields := [], constructors := [], methods := [] }, accountClass [],
    clientClass]⟩

/-- The two programs differ in what is reported about accounts; about the client the reports say the
same, namely that it may not deposit. -/
theorem report_on_class_modular_clientClass :
    ∃ r r', clientFirst.check default = .ok r ∧ clientLast.check default = .ok r' ∧
      r.diagnostics.filter (fun x => x.location.className = "Account") ≠
        r'.diagnostics.filter (fun x => x.location.className = "Account") ∧
      r.diagnostics.filter (fun x => x.location.className = "Client") =
        r'.diagnostics.filter (fun x => x.location.className = "Client") ∧
      r.constructors.filter (fun x => x.location.className = "Client") =
        r'.constructors.filter (fun x => x.location.className = "Client") ∧
      r.objects.get? "Client" = r'.objects.get? "Client" := by
  have hcounts : (clientFirst.check default).map (fun r => (r.on "Account").diagnostics.length) =
        .ok 1 ∧
      (clientLast.check default).map (fun r => (r.on "Account").diagnostics.length) = .ok 0 := by
    decide +kernel
  obtain ⟨hcount, hcount'⟩ := hcounts
  cases hr : clientFirst.check default with
  | error f => rw [hr] at hcount; cases hcount
  | ok r =>
    cases hr' : clientLast.check default with
    | error f => rw [hr'] at hcount'; cases hcount'
    | ok r' =>
      rw [hr] at hcount
      rw [hr'] at hcount'
      have hone : (r.on "Account").diagnostics.length = 1 := Except.ok.inj hcount
      have hzero : (r'.on "Account").diagnostics.length = 0 := Except.ok.inj hcount'
      refine ⟨r, r', rfl, rfl, ?_, report_on_class_modular default clientFirst clientLast r r'
        (by decide) (by decide) hr hr' ?_ clientClass (by simp [clientFirst])
        (by simp [clientLast])⟩
      · intro he
        have hlength : (r.on "Account").diagnostics.length =
            (r'.on "Account").diagnostics.length := congrArg List.length he
        rw [hone, hzero] at hlength
        cases hlength
      · intro c hc
        rcases List.mem_cons.1 hc with rfl | hc
        · exact ⟨clientClass, by simp [clientLast], rfl⟩
        · obtain rfl := List.mem_singleton.1 hc
          exact ⟨accountClass [], by simp [clientLast], rfl⟩

end Mutability
