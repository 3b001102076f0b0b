import Mutability.Proofs.MachineRuns

/-!
# What an expression leaves alone

Checking an expression has one effect: it puts diagnostics about the member it stands in behind
those that are there. A computation with no other effect `SpeaksOf` that member, and sequences of
such computations do too; so do expressions, by induction over their form, and the arguments of
calls with them. Since expressions are also `Additive`, what they say and the type they have are
fixed by the rules, the tables and the scope, whatever has been reported before.

On the machine, where the tables and the scope are part of the state, an expression leaves both as
they are, so that whatever stands behind it is evaluated with them too (`expression_frame`).
-/

namespace Mutability

namespace Report

theorem append_ofDiagnostics (r : Report) (l : Location) (ds : List Diagnostic) :
    r ++ ofDiagnostics l ds = { r with diagnostics := r.diagnostics ++ ds.map (⟨l, ·⟩) } := by
  show mk _ (r.positions ++ []) (r.constructors ++ []) (r.objects.merge ∅) = _
  rw [List.append_nil, List.append_nil, OrderedMap.merge_empty]
  rfl

theorem ofDiagnostics_append_ofDiagnostics (l : Location) (ds es : List Diagnostic) :
    ofDiagnostics l ds ++ ofDiagnostics l es = ofDiagnostics l (ds ++ es) := by
  rw [append_ofDiagnostics]
  unfold ofDiagnostics
  rw [List.map_append]

end Report

namespace Checker

variable {α β : Type}

/-- A run from any report is the run from the empty one, with what it adds put behind. -/
theorem exists_yields_of_run {m : Check α} [Additive m] {r r' : Report} {a : α}
    (h : m.run r = .ok (a, r')) : ∃ d, Yields m a d ∧ r' = r ++ d := by
  rw [Additive.run_eq r] at h
  cases hm : m.run ∅ with
  | error f => rw [hm] at h; cases h
  | ok x =>
    rw [hm] at h
    obtain ⟨rfl, rfl⟩ : x.1 = a ∧ r ++ x.2 = r' := by simpa [Except.map] using h
    exact ⟨x.2, hm, rfl⟩

/-- The computation adds diagnostics about one member to the report, and nothing else. -/
def SpeaksOf (l : Location) (m : Check α) : Prop :=
  ∀ a d, Yields m a d → ∃ ds, d = .ofDiagnostics l ds

section

variable {l : Location}

theorem SpeaksOf.bind {m : Check α} {k : α → Check β} [∀ a, Additive (k a)]
    (hm : SpeaksOf l m) (hk : ∀ a, SpeaksOf l (k a)) : SpeaksOf l (m >>= k) := by
  intro b d h
  obtain ⟨a, d₁, d₂, h₁, h₂, rfl⟩ := yields_bind.1 h
  obtain ⟨ds, rfl⟩ := hm a d₁ h₁
  obtain ⟨es, rfl⟩ := hk a b d₂ h₂
  exact ⟨ds ++ es, Report.ofDiagnostics_append_ofDiagnostics l ds es⟩

theorem speaksOf_pure (a : α) : SpeaksOf l (pure a : Check α) := by
  intro b d h
  exact ⟨[], (yields_pure.1 h).2⟩

theorem speaksOf_lift (x : Except Fault α) : SpeaksOf l (liftM x : Check α) := by
  intro a d h
  exact ⟨[], (yields_lift.1 h).2⟩

theorem speaksOf_emitAll (ds : List Diagnostic) : SpeaksOf l (emitAll l ds) := by
  intro u d h
  exact ⟨ds, yields_emitAll.1 h⟩

end

section

variable {env : Env} {s : Scope}

theorem speaksOf_checkArgs_of {args : List Expr}
    (h : ∀ a ∈ args, SpeaksOf s.location (checkExpr env s a)) :
    SpeaksOf s.location (checkArgs env s args) := by
  induction args with
  | nil => rw [checkArgs]; exact speaksOf_pure []
  | cons e rest ih =>
    rw [checkArgs]
    refine (h e List.mem_cons_self).bind fun t => ?_
    exact (ih fun a ha => h a (List.mem_cons_of_mem e ha)).bind fun qs => speaksOf_pure _

theorem speaksOf_checkExpr (e : Expr) : SpeaksOf s.location (checkExpr env s e) := by
  induction e using Expr.inductionOn with
  | self => rw [checkExpr]; exact (speaksOf_lift _).bind fun q => speaksOf_pure _
  | null => rw [checkExpr]; exact speaksOf_pure _
  | literal host => rw [checkExpr]; exact speaksOf_pure _
  | var name => rw [checkExpr]; exact (speaksOf_lift _).bind fun v => speaksOf_pure _
  | fieldRead receiver name ih =>
    rw [checkExpr]
    exact ih.bind fun t => (speaksOf_lift _).bind fun f => speaksOf_pure _
  | create className text args ih =>
    rw [checkExpr]
    unfold validate
    refine (speaksOf_lift _).bind fun k => (speaksOf_lift _).bind fun requested => ?_
    refine (speaksOf_emitAll _).bind fun _ => (speaksOf_checkArgs_of ih).bind fun qs => ?_
    exact (speaksOf_emitAll _).bind fun _ => speaksOf_pure _
  | call receiver name args ihr ih =>
    rw [checkExpr_call]
    refine ihr.bind fun t => (speaksOf_lift _).bind fun className => ?_
    refine (speaksOf_lift _).bind fun m => (speaksOf_checkArgs_of ih).bind fun qs => ?_
    refine (speaksOf_emitAll _).bind fun _ => ?_
    exact (speaksOf_emitAll _).bind fun _ => speaksOf_pure _
  | staticCall className name args ih =>
    rw [checkExpr]
    unfold checkArguments
    refine (speaksOf_lift _).bind fun m => (speaksOf_checkArgs_of ih).bind fun qs => ?_
    exact (speaksOf_emitAll _).bind fun _ => speaksOf_pure _
  | cast host text operand ih =>
    rw [checkExpr]
    unfold validate
    refine ih.bind fun t => (speaksOf_lift _).bind fun explicit => ?_
    refine (speaksOf_emitAll _).bind fun _ => ?_
    exact (speaksOf_lift _).bind fun q => speaksOf_pure _
  | binary host lhs rhs ihl ihr =>
    rw [checkExpr]
    refine ihl.bind fun l => ihr.bind fun r => ?_
    exact (speaksOf_lift _).bind fun q => speaksOf_pure _

end

/-! ## On the machine -/

open Machine

/-- A run that leaves the tables, the scope and the records of the report as they are, and puts
diagnostics about the member of the scope behind those that are there. From any other report it
gives the same and says the same. -/
structure Framed (x : Action α) (m : Machine) (a : α) (m' : Machine) : Prop where
  tables : m'.tables = m.tables
  scope : m'.scope = m.scope
  positions : m'.report.positions = m.report.positions
  constructors : m'.report.constructors = m.report.constructors
  objects : m'.report.objects = m.report.objects
  diagnostics : ∃ ds : List Diagnostic,
    m'.report.diagnostics = m.report.diagnostics ++ ds.map (⟨m.scope.location, ·⟩) ∧
    ∀ r : Report, x.run { m with report := r } = .ok (a, { m with
      report := { r with diagnostics := r.diagnostics ++ ds.map (⟨m.scope.location, ·⟩) } })

theorem framed_of_follows {x : Action α} {y : Tables → Scope → Check α} (hx : Follows x y)
    [∀ ts s, Additive (y ts s)] (hy : ∀ ts s, SpeaksOf s.location (y ts s)) {m m' : Machine}
    {a : α} (h : x.run m = .ok (a, m')) : Framed x m a m' := by
  obtain ⟨hrun, heq⟩ := hx.eq_of_run h
  obtain ⟨d, hd, hreport⟩ := exists_yields_of_run hrun
  obtain ⟨ds, rfl⟩ := hy m.tables m.scope a d hd
  rw [Report.append_ofDiagnostics] at hreport
  rw [hreport] at heq
  subst heq
  refine ⟨rfl, rfl, rfl, rfl, rfl, ds, rfl, fun r => ?_⟩
  rw [hx { m with report := r }, hd.run_eq r, Report.append_ofDiagnostics]
  rfl

theorem framed_evalExpr {π : Policy} {e : Expr} {m m' : Machine} {t : Typed}
    (h : (evalExpr π e).run m = .ok (t, m')) : Framed (evalExpr π e) m t m' :=
  framed_of_follows (follows_evalExpr e) (fun _ _ => speaksOf_checkExpr e) h

theorem framed_evalArgs {π : Policy} {args : List Expr} {m m' : Machine} {qs : List Qualifier}
    (h : (evalArgs π args).run m = .ok (qs, m')) : Framed (evalArgs π args) m qs m' :=
  framed_of_follows (follows_evalArgs args)
    (fun _ _ => speaksOf_checkArgs_of fun a _ => speaksOf_checkExpr a) h

/-- What is run behind an expression starts from the tables and the scope that the expression
started from. -/
theorem run_of_run_evalExpr_bind {π : Policy} {e : Expr} {m m₁ m' : Machine} {t : Typed}
    {k : Typed → Action β} {b : β} (h : (evalExpr π e).run m = .ok (t, m₁))
    (hk : (evalExpr π e >>= k).run m = .ok (b, m')) :
    (k t).run { m with report := m₁.report } = .ok (b, m') := by
  obtain ⟨t', m₂, ht, hrest⟩ := run_bind_eq_ok.1 hk
  obtain ⟨rfl, rfl⟩ := Prod.mk.inj (Except.ok.inj (h.symm.trans ht))
  rwa [← ((follows_evalExpr e).eq_of_run h).2]

end Checker

open Checker Checker.Machine

/-- On the machine an expression is evaluated as it is checked with the tables and the scope at
hand, and a body takes the scope through its statements as the checker does. An expression that is
evaluated without a fault leaves the tables, the scope and the records of the report as they are,
and puts diagnostics about the member of the scope behind those that are there; what it adds and
its type do not depend on the report. Arguments, operands and the value of a field write that stand
behind it are evaluated with the tables and the scope from before it. -/
theorem expression_frame (π : Policy) (e : Expr) :
    (∀ m : Machine, (evalExpr π e).run m =
      ((checkExpr ⟨π, m.tables⟩ m.scope e).run m.report).map fun o =>
        (o.1, { m with report := o.2 })) ∧
    (∀ (body : List Stmt) (m : Machine), (execBody π body).run m =
      ((checkBody ⟨π, m.tables⟩ m.scope body).run m.report).map fun o =>
        ((), { m with scope := o.1, report := o.2 })) ∧
    ∀ (m m' : Machine) (t : Typed), (evalExpr π e).run m = .ok (t, m') →
      Framed (evalExpr π e) m t m' ∧
      (∀ args qs m'', (evalArgs π (e :: args)).run m = .ok (qs, m'') →
        Framed (evalArgs π (e :: args)) m qs m'' ∧ ∃ rest, qs = t.qualifier :: rest ∧
          (evalArgs π args).run { m with report := m'.report } = .ok (rest, m'')) ∧
      (∀ name args u m'', (evalExpr π (.call e name args)).run m = .ok (u, m'') →
        ∃ o, (evalArgs π args).run { m with report := m'.report } = .ok o) ∧
      (∀ host rhs u m'', (evalExpr π (.binary host e rhs)).run m = .ok (u, m'') →
        ∃ o, (evalExpr π rhs).run { m with report := m'.report } = .ok o) ∧
      ∀ name value u m'', (execStmt π (.fieldWrite e name value)).run m = .ok (u, m'') →
        ∃ o, (evalExpr π value).run { m with report := m'.report } = .ok o := by
  refine ⟨follows_evalExpr e, fun body => reaches_execBody body, fun m m' t h => ?_⟩
  refine ⟨framed_evalExpr h, fun args qs m'' hargs => ?_, fun name args u m'' hcall => ?_,
    fun host rhs u m'' hbinary => ?_, fun name value u m'' hwrite => ?_⟩
  · refine ⟨framed_evalArgs hargs, ?_⟩
    rw [evalArgs] at hargs
    obtain ⟨rest, m₁, hrest, hpure⟩ := run_bind_eq_ok.1 (run_of_run_evalExpr_bind h hargs)
    cases hpure
    exact ⟨rest, rfl, hrest⟩
  · rw [evalExpr] at hcall
    have hbehind := run_of_run_evalExpr_bind h hcall
    obtain ⟨owner, m₁, howner, hbehind⟩ := run_bind_eq_ok.1 hbehind
    obtain ⟨method, m₂, hmethod, hbehind⟩ := run_bind_eq_ok.1 hbehind
    obtain rfl := (follows_lift _).eq_of_run_lift howner
    obtain rfl := (follows_step _).eq_of_run_lift hmethod
    obtain ⟨qs, m₃, hqs, -⟩ := run_bind_eq_ok.1 hbehind
    exact ⟨_, hqs⟩
  · rw [evalExpr] at hbinary
    obtain ⟨r, m₁, hr, -⟩ := run_bind_eq_ok.1 (run_of_run_evalExpr_bind h hbinary)
    exact ⟨_, hr⟩
  · rw [execStmt] at hwrite
    obtain ⟨f, m₁, hf, hbehind⟩ := run_bind_eq_ok.1 (run_of_run_evalExpr_bind h hwrite)
    obtain rfl := (follows_step _).eq_of_run_lift hf
    obtain ⟨v, m₂, hv, -⟩ := run_bind_eq_ok.1 hbehind
    exact ⟨_, hv⟩

/-- The tables of a class with a method that wants a `mutable` receiver and two `immutable`
arguments. -/
def deskTables : Tables :=
  let param (index : Nat) : ResolvedParam :=
    ⟨"p", .written (.parameter "file" index) (.declared "Desk") (some .immutable), .immutable, rfl⟩
  .ofList [("Desk", {
    fields := ∅
    constructors := []
    methods := [{
      signature := ⟨"file", false, some .mutable, [.immutable, .immutable], .readonly⟩
      params := [param 0, param 1]
      returns := some (.declared "Desk") }] })]

/-- A static method with one `readonly` variable. -/
def clerkScope : Scope where
  location := ⟨"Clerk", "work"⟩
  receiver := none
  inConstructor := false
  returns := none
  vars := .ofList [("d", ⟨.written .localVariable (.declared "Desk") (some .readonly), .readonly⟩)]
  written := []

/-- Something is wrong with the annotation in the first argument, with the receiver and with the
second argument. -/
def filingCall : Expr :=
  .call (.var "d") "file" [.cast (.declared "Desk") (some "@Bottom") (.var "d"), .var "d"]

/-- A report that already says something about another member. -/
def earlierReport : Report where
  diagnostics := [⟨⟨"Desk", "file"⟩, ⟨.illegalWrite, "cannot write field top"⟩⟩]
  positions := [.written .localVariable (.declared "Desk") (some .readonly)]
  constructors := [⟨⟨"Desk", "<init>[0]"⟩, ⟨.mutable, .initialized⟩, []⟩]
  objects := .ofList [("Desk", ⟨.mutable, .initialized⟩)]

/-- The machine in the body of the static method. -/
def clerkMachine : Machine := ⟨deskTables, clerkScope, earlierReport⟩

/-- The call is said to be wrong in three ways, behind what the report says or in a report of its
own, and an operand behind it is evaluated in the same scope. -/
theorem expression_frame_filingCall :
    ∃ m' ds, (evalExpr default filingCall).run clerkMachine =
        .ok (⟨.declared "Desk", .readonly⟩, m') ∧
      ds.map Diagnostic.kind =
        [.invalidCastQualifier, .methodInvocationInvalid, .argumentTypeIncompatible] ∧
      m'.tables = deskTables ∧ m'.scope = clerkScope ∧
      m'.report.positions = earlierReport.positions ∧
      m'.report.diagnostics = earlierReport.diagnostics ++ ds.map (⟨⟨"Clerk", "work"⟩, ·⟩) ∧
      (evalExpr default filingCall).run ⟨deskTables, clerkScope, ∅⟩ =
        .ok (⟨.declared "Desk", .readonly⟩,
          ⟨deskTables, clerkScope, .ofDiagnostics ⟨"Clerk", "work"⟩ ds⟩) ∧
      ∃ o, (evalExpr default (.var "d")).run ⟨deskTables, clerkScope, m'.report⟩ = .ok o := by
  have hrun : (evalExpr default filingCall).run clerkMachine =
      .ok (⟨.declared "Desk", .readonly⟩, ⟨deskTables, clerkScope, { earlierReport with
        diagnostics := earlierReport.diagnostics ++ [
          ⟨⟨"Clerk", "work"⟩, .mk .invalidCastQualifier "@Bottom cannot be written in source"⟩,
          ⟨⟨"Clerk", "work"⟩, .incompatible .methodInvocationInvalid .readonly .mutable⟩,
          ⟨⟨"Clerk", "work"⟩, .argument 1 .readonly .immutable⟩] }⟩) := by
    rfl
  obtain ⟨u, m'', hbinary⟩ : ∃ u m'', (evalExpr default
      (.binary (.declared "Desk") filingCall (.var "d"))).run clerkMachine = .ok (u, m'') :=
    ⟨_, _, rfl⟩
  obtain ⟨hframed, -, -, hoperand, -⟩ :=
    (expression_frame default filingCall).2.2 _ _ _ hrun
  obtain ⟨ds, hds, hany⟩ := hframed.diagnostics
  refine ⟨_, ds, hrun, ?_, hframed.tables, hframed.scope, hframed.positions, hds, hany ∅,
    hoperand _ _ u m'' hbinary⟩
  have hkinds := congrArg (List.map fun x => x.diagnostic.kind) (List.append_cancel_left hds)
  rw [List.map_map] at hkinds
  exact hkinds.symm

end Mutability
