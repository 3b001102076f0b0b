import Mutability.Checker.Machine
import Mutability.Proofs.CheckerSteps

/-!
# Runs of the machine

The machine takes the tables and the scope from its state, where every step could have changed them;
the checker is handed both and cannot. The two agree since no expression changes them: an
expression `Follows` what the checker does with the tables and the scope that it starts from, by
induction over its form, the operands and the later arguments being evaluated in the state that the
earlier ones leave. A statement `Reaches` the scope that the checker gives for it, and so does a
body, one statement after the other.
-/

namespace Mutability.Checker.Machine

variable {α β : Type}

/-! ## Actions that leave the tables and the scope -/

/-- The action goes on with the report as the computation does that is given the tables and the
scope, and leaves both as they are. -/
def Follows (x : Action α) (y : Tables → Scope → Check α) : Prop :=
  ∀ m : Machine, x.run m =
    ((y m.tables m.scope).run m.report).map fun o => (o.1, { m with report := o.2 })

theorem follows_pure (a : α) : Follows (pure a) fun _ _ => pure a :=
  fun _ => rfl

theorem follows_lift (x : Except Fault α) : Follows (liftM x) fun _ _ => liftM x := by
  intro m
  cases x <;> rfl

theorem follows_step (f : Tables → Scope → Check α) : Follows (step f) f := by
  intro m
  simp only [step, StateT.run_bind, StateT.run_get, pure_bind]
  cases (f m.tables m.scope).run m.report <;> rfl

/-- What follows an action starts from the tables and the scope that the action started from. -/
theorem Follows.run_bind {x : Action α} {y : Tables → Scope → Check α} (hx : Follows x y)
    (k : α → Action β) (m : Machine) :
    (x >>= k).run m = (y m.tables m.scope).run m.report >>= fun o =>
      (k o.1).run { m with report := o.2 } := by
  rw [StateT.run_bind, hx m]
  cases (y m.tables m.scope).run m.report <;> rfl

theorem Follows.bind {x : Action α} {y : Tables → Scope → Check α} {k : α → Action β}
    {l : α → Tables → Scope → Check β} (hx : Follows x y) (hk : ∀ a, Follows (k a) (l a)) :
    Follows (x >>= k) fun ts s => y ts s >>= fun a => l a ts s := by
  intro m
  rw [hx.run_bind, StateT.run_bind]
  cases (y m.tables m.scope).run m.report with
  | error f => rfl
  | ok o => exact hk o.1 { m with report := o.2 }

theorem Follows.eq_of_run {x : Action α} {y : Tables → Scope → Check α} (hx : Follows x y)
    {m m' : Machine} {a : α} (h : x.run m = .ok (a, m')) :
    (y m.tables m.scope).run m.report = .ok (a, m'.report) ∧
      m' = { m with report := m'.report } := by
  rw [hx m] at h
  cases hy : (y m.tables m.scope).run m.report with
  | error f => rw [hy] at h; cases h
  | ok o =>
    rw [hy] at h
    cases h
    exact ⟨rfl, rfl⟩

theorem run_bind_eq_ok {x : Action α} {k : α → Action β} {m m' : Machine} {b : β} :
    (x >>= k).run m = .ok (b, m') ↔
      ∃ a m₁, x.run m = .ok (a, m₁) ∧ (k a).run m₁ = .ok (b, m') := by
  rw [StateT.run_bind]
  cases x.run m with
  | error f => exact ⟨fun h => (nomatch h), fun ⟨a, m₁, h, _⟩ => (nomatch h)⟩
  | ok o =>
    constructor
    · intro h
      exact ⟨o.1, o.2, rfl, h⟩
    · rintro ⟨a, m₁, ⟨⟩, h⟩
      exact h

/-- A look-up leaves the machine as it is. -/
theorem Follows.eq_of_run_lift {x : Action α} {f : Tables → Scope → Except Fault α}
    (hx : Follows x fun ts s => liftM (f ts s)) {m m' : Machine} {a : α}
    (h : x.run m = .ok (a, m')) : m' = m := by
  obtain ⟨hrun, hm'⟩ := hx.eq_of_run h
  cases hf : f m.tables m.scope with
  | error fault => rw [hf] at hrun; cases hrun
  | ok b =>
    rw [hf] at hrun
    have hreport : m.report = m'.report := (Prod.mk.inj (Except.ok.inj hrun)).2
    rw [hm', ← hreport]

/-! ## Expressions -/

section

variable {π : Policy}

theorem follows_evalArgs_of {args : List Expr}
    (h : ∀ a ∈ args, Follows (evalExpr π a) fun ts s => checkExpr ⟨π, ts⟩ s a) :
    Follows (evalArgs π args) fun ts s => checkArgs ⟨π, ts⟩ s args := by
  induction args with
  | nil =>
    simp only [evalArgs, checkArgs]
    exact follows_pure []
  | cons e rest ih =>
    simp only [evalArgs, checkArgs]
    refine (h e List.mem_cons_self).bind fun t => ?_
    exact (ih fun a ha => h a (List.mem_cons_of_mem e ha)).bind fun qs => follows_pure _

theorem follows_createObject {owner : String} {text : Option String} {args : List Expr}
    (h : Follows (evalArgs π args) fun ts s => checkArgs ⟨π, ts⟩ s args) :
    Follows (createObject π owner text args.length (evalArgs π args)) fun ts s =>
      checkExpr ⟨π, ts⟩ s (.create owner text args) := by
  simp only [createObject, checkExpr]
  refine (follows_step _).bind fun k => (follows_lift _).bind fun requested => ?_
  refine (follows_step _).bind fun _ => h.bind fun arguments => ?_
  exact (follows_step _).bind fun _ => follows_pure _

theorem checkRequired_eq (l : Location) (kind : Diagnostic.Kind) (found : Qualifier)
    (required : Option Qualifier) :
    checkRequired l kind found required = emitAll l (misfit kind found required) := by
  cases required with
  | none => exact (emitAll_nil l).symm
  | some required => rfl

theorem follows_evalExpr (e : Expr) :
    Follows (evalExpr π e) fun ts s => checkExpr ⟨π, ts⟩ s e := by
  induction e using Expr.inductionOn with
  | self =>
    simp only [evalExpr, checkExpr]
    exact follows_step _
  | null =>
    simp only [evalExpr, checkExpr]
    exact follows_pure _
  | literal host =>
    simp only [evalExpr, checkExpr]
    exact follows_pure _
  | var name =>
    simp only [evalExpr, checkExpr]
    exact (follows_step _).bind fun v => follows_pure _
  | fieldRead receiver name ih =>
    simp only [evalExpr, checkExpr]
    exact ih.bind fun t => (follows_step _).bind fun f => follows_pure _
  | create owner text args ih =>
    rw [evalExpr]
    exact follows_createObject (follows_evalArgs_of ih)
  | call receiver name args ihr ih =>
    simp only [evalExpr, checkExpr_call, checkRequired_eq]
    refine ihr.bind fun t => (follows_lift _).bind fun owner => ?_
    refine (follows_step _).bind fun m => (follows_evalArgs_of ih).bind fun qs => ?_
    refine (follows_step _).bind fun _ => ?_
    exact (follows_step _).bind fun _ => follows_pure _
  | staticCall owner name args ih =>
    simp only [evalExpr, checkExpr]
    refine (follows_step _).bind fun m => (follows_evalArgs_of ih).bind fun qs => ?_
    exact (follows_step _).bind fun _ => follows_pure _
  | cast host text operand ih =>
    simp only [evalExpr, checkExpr]
    refine ih.bind fun t => (follows_lift _).bind fun explicit => ?_
    refine (follows_step _).bind fun _ => ?_
    exact (follows_lift _).bind fun q => follows_pure _
  | binary host lhs rhs ihl ihr =>
    simp only [evalExpr, checkExpr]
    refine ihl.bind fun l => ihr.bind fun r => ?_
    exact (follows_lift _).bind fun q => follows_pure _

theorem follows_evalArgs (args : List Expr) :
    Follows (evalArgs π args) fun ts s => checkArgs ⟨π, ts⟩ s args :=
  follows_evalArgs_of fun a _ => follows_evalExpr a

end

/-! ## Statements -/

/-- The action ends in the scope that the computation gives, and leaves the tables as they are. -/
def Reaches (x : Action Unit) (y : Tables → Scope → Check Scope) : Prop :=
  ∀ m : Machine, x.run m = ((y m.tables m.scope).run m.report).map fun o =>
    ((), { m with scope := o.1, report := o.2 })

theorem reaches_pure : Reaches (pure ()) fun _ s => pure s :=
  fun _ => rfl

theorem reaches_modifyScope (f : Scope → Scope) : Reaches (modifyScope f) fun _ s => pure (f s) :=
  fun _ => rfl

theorem Follows.reaches {x : Action α} {y : Tables → Scope → Check α} {k : α → Action Unit}
    {l : α → Tables → Scope → Check Scope} (hx : Follows x y) (hk : ∀ a, Reaches (k a) (l a)) :
    Reaches (x >>= k) fun ts s => y ts s >>= fun a => l a ts s := by
  intro m
  rw [hx.run_bind, StateT.run_bind]
  cases (y m.tables m.scope).run m.report with
  | error f => rfl
  | ok o => exact hk o.1 { m with report := o.2 }

theorem Follows.reaches_same {x : Action Unit} {y : Tables → Scope → Check Unit}
    (hx : Follows x y) : Reaches x fun ts s => y ts s >>= fun _ => pure s := by
  intro m
  rw [hx m, StateT.run_bind]
  cases (y m.tables m.scope).run m.report <;> rfl

theorem Reaches.bind {x k : Action Unit} {y l : Tables → Scope → Check Scope} (hx : Reaches x y)
    (hk : Reaches k l) : Reaches (x >>= fun _ => k) fun ts s => y ts s >>= l ts := by
  intro m
  rw [StateT.run_bind, StateT.run_bind, hx m]
  cases (y m.tables m.scope).run m.report with
  | error f => rfl
  | ok o => exact hk { m with scope := o.1, report := o.2 }

/-- A variable that has been looked up is there to be assigned to. -/
theorem setCurrent_of_var {s : Scope} {name : String} {v : Var} (h : s.var name = .ok v)
    (q : Qualifier) :
    s.setCurrent name q = { s with vars := s.vars.insert name ⟨v.declared, q⟩ } := by
  rw [Scope.var_eq, orFault_eq_ok] at h
  unfold Scope.setCurrent
  rw [h]

theorem checkStmt_assign (env : Env) (s : Scope) (target : String) (value : Expr) :
    checkStmt env s (.assign target value) = (do
      let v ← (liftM (s.var target) : Check Var)
      let value ← checkExpr env s value
      let current ← assignVar env s v.declared value.qualifier
      return s.setCurrent target current) := by
  rw [checkStmt]
  cases hv : s.var target with
  | error f => rfl
  | ok v =>
    simp only [setCurrent_of_var hv]
    rfl

section

variable {π : Policy}

theorem reaches_execStmt (stmt : Stmt) :
    Reaches (execStmt π stmt) fun ts s => checkStmt ⟨π, ts⟩ s stmt := by
  cases stmt with
  | localVar name host text init =>
    cases init with
    | none =>
      simp only [execStmt, checkStmt]
      exact (follows_step _).reaches fun d => reaches_modifyScope _
    | some e =>
      simp only [execStmt, checkStmt]
      refine (follows_step _).reaches fun d => (follows_evalExpr e).reaches fun value => ?_
      exact (follows_step _).reaches fun current => reaches_modifyScope _
  | assign target value =>
    simp only [execStmt, checkStmt_assign]
    refine (follows_step _).reaches fun v => (follows_evalExpr value).reaches fun t => ?_
    exact (follows_step _).reaches fun current => reaches_modifyScope _
  | fieldWrite receiver name value =>
    simp only [execStmt, checkStmt]
    refine (follows_evalExpr receiver).reaches fun t => (follows_step _).reaches fun f => ?_
    refine (follows_evalExpr value).reaches fun v => ?_
    exact (follows_step _).reaches fun _ => reaches_modifyScope _
  | eval e =>
    simp only [execStmt, checkStmt]
    exact (follows_evalExpr e).reaches fun t => reaches_pure
  | exit value =>
    cases value with
    | none => exact reaches_pure
    | some e =>
      simp only [execStmt, checkStmt_exit_some, checkRequired_eq]
      refine (follows_evalExpr e).reaches fun value => ?_
      exact (follows_step _).reaches_same

theorem reaches_execBody (body : List Stmt) :
    Reaches (execBody π body) fun ts s => checkBody ⟨π, ts⟩ s body := by
  induction body with
  | nil => exact reaches_pure
  | cons stmt rest ih => exact (reaches_execStmt stmt).bind ih

end

end Mutability.Checker.Machine
