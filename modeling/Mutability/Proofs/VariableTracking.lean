import Mathlib.Data.List.Induction
import Mutability.Proofs.BodyRuns
import Mutability.Proofs.DeclaredPositions

/-!
# What is known about a variable

A body is checked statement by statement, and the scope is carried along. At any point of it the
record of a variable is told by the statements so far: the position is that of its latest
declaration, a parameter or a local one, and its qualifier is the annotation there, or `immutable`
where only that is possible, or else that of the value last given to it since then (`Tracks`).

`VarStep` says what one statement does to one variable; `tracks_checkStmt` is the step,
`tracks_checkBody` the run, and `tracks_bindParams` what holds where a body begins.
-/

namespace Mutability

open Checker

/-! ## Declarations and values in a body -/

namespace Stmt

/-- The statement declares the variable. -/
def Declares (x : String) : Stmt → Prop
  | .localVar name _ _ _ => name = x
  | .assign _ _ | .fieldWrite _ _ _ | .eval _ | .exit _ => False

/-- The expression whose value the statement gives to the variable: a first value or an assigned
one. -/
def valueFor? (x : String) : Stmt → Option Expr
  | .localVar name _ _ init => if name = x then init else none
  | .assign target value => if target = x then some value else none
  | .fieldWrite _ _ _ | .eval _ | .exit _ => none

end Stmt

/-- The latest declaration of a variable: the slot that it has, the statements before it, and those
since. A parameter is declared before all statements, and of several with one name the last one
counts. -/
inductive LatestDeclaration (method : String) (params : List ParamDecl) (x : String) :
    List Stmt → List Stmt → Slot → Prop
  | localVar {before after : List Stmt} {host : HostType} {text : Option String}
      {init : Option Expr} (last : ∀ stmt ∈ after, ¬ stmt.Declares x) :
      LatestDeclaration method params x before (.localVar x host text init :: after)
        ⟨.localVariable, host, text⟩
  | param {front back : List ParamDecl} {p : ParamDecl} {since : List Stmt}
      (split : params = front ++ p :: back) (name : p.name = x) (last : ∀ q ∈ back, q.name ≠ x)
      (visible : ∀ stmt ∈ since, ¬ stmt.Declares x) :
      LatestDeclaration method params x [] since
        ⟨.parameter method front.length, p.host, p.qualifierText⟩

/-- The qualifier of the value that the statements since its declaration have last given to a
variable, if they have given it any. The value is that of the expression in the scope that the run
from `start` has reached there. -/
inductive LastValue (env : Env) (start : Scope) (x : String) (before since : List Stmt) :
    Option Qualifier → Prop
  | unassigned (never : ∀ stmt ∈ since, stmt.valueFor? x = none) :
      LastValue env start x before since none
  | assigned {mid after : List Stmt} {stmt : Stmt} {e : Expr} {s : Scope} {t : Typed}
      {d₁ d₂ : Report} (split : since = mid ++ stmt :: after) (value : stmt.valueFor? x = some e)
      (last : ∀ later ∈ after, later.valueFor? x = none)
      (reaches : Yields (checkBody env start (before ++ mid)) s d₁)
      (evaluates : Yields (checkExpr env s e) t d₂) :
      LastValue env start x before since (some t.qualifier)

/-- The qualifier of a variable at a point of a body, by the slot where it is declared, the
annotation there, and the last value. -/
def Configuration.tracked (c : Configuration) (slot : Slot) (explicit value : Option Qualifier) :
    Qualifier :=
  match explicit with
  | some q => q
  | none =>
    if c.isImplicitlyImmutable slot.host then .immutable
    else value.getD ((Policy.ofConfiguration c).defaultQualifier slot.kind slot.host)

/-- What is known about a variable after some statements of a member: nothing if it has not been
declared, and else a record that is told by its latest declaration and its last value. -/
inductive Tracks (env : Env) (start : Scope) (method : String) (params : List ParamDecl)
    (x : String) (stmts : List Stmt) : Option Var → Prop
  | undeclared (noParam : ∀ p ∈ params, p.name ≠ x)
      (noLocal : ∀ stmt ∈ stmts, ¬ stmt.Declares x) :
      Tracks env start method params x stmts none
  | declared {before since : List Stmt} {slot : Slot} {explicit value : Option Qualifier}
      (split : stmts = before ++ since)
      (latest : LatestDeclaration method params x before since slot)
      (resolves : env.policy.resolve? slot.text = .ok explicit)
      (given : LastValue env start x before since value) :
      Tracks env start method params x stmts
        (some ⟨env.policy.annotate (.written slot.kind slot.host explicit),
          env.policy.config.tracked slot explicit value⟩)

/-! ## One more statement -/

section Concat

variable {method : String} {params : List ParamDecl} {x : String} {before since : List Stmt}
  {stmt : Stmt}

theorem forall_mem_concat {α : Type} {p : α → Prop} {as : List α} {a : α} (h : ∀ b ∈ as, p b)
    (ha : p a) : ∀ b ∈ as ++ [a], p b := by
  simp only [List.mem_append, List.mem_singleton]
  rintro b (hb | rfl)
  · exact h b hb
  · exact ha

theorem LatestDeclaration.concat {slot : Slot}
    (h : LatestDeclaration method params x before since slot) (hstmt : ¬ stmt.Declares x) :
    LatestDeclaration method params x before (since ++ [stmt]) slot := by
  cases h with
  | localVar last => exact .localVar (forall_mem_concat last hstmt)
  | param split name last visible =>
    exact .param split name last (forall_mem_concat visible hstmt)

theorem LastValue.concat {env : Env} {start : Scope} {value : Option Qualifier}
    (h : LastValue env start x before since value) (hstmt : stmt.valueFor? x = none) :
    LastValue env start x before (since ++ [stmt]) value := by
  cases h with
  | unassigned never => exact .unassigned (forall_mem_concat never hstmt)
  | assigned split value last reaches evaluates =>
    refine .assigned ?_ value (forall_mem_concat last hstmt) reaches evaluates
    rw [split, List.append_assoc, List.cons_append]

/-- A value that is given now is the last one. -/
theorem LastValue.of_valueFor? {env : Env} {start s : Scope} {e : Expr} {t : Typed}
    {d₁ d₂ : Report} (hstmt : stmt.valueFor? x = some e)
    (hs : Yields (checkBody env start (before ++ since)) s d₁)
    (ht : Yields (checkExpr env s e) t d₂) :
    LastValue env start x before (since ++ [stmt]) (some t.qualifier) :=
  .assigned rfl hstmt (fun later hlater => by cases hlater) hs ht

end Concat

namespace Checker

variable {P : Diagnostic → Prop} {env : Env} {s s' : Scope}

theorem within_checkBody_concat {stmts : List Stmt} {stmt : Stmt} :
    Within P (checkBody env s (stmts ++ [stmt])) s' ↔
      ∃ next, Within P (checkBody env s stmts) next ∧ Within P (checkStmt env next stmt) s' := by
  induction stmts generalizing s with
  | nil => simp [within_checkBody_cons, within_checkBody_nil]
  | cons first rest ih =>
    simp only [List.cons_append, within_checkBody_cons, ih]
    constructor
    · rintro ⟨after, hfirst, next, hrest, hstmt⟩
      exact ⟨next, ⟨after, hfirst, hrest⟩, hstmt⟩
    · rintro ⟨next, ⟨after, hfirst, hrest⟩, hstmt⟩
      exact ⟨after, hfirst, next, hrest, hstmt⟩

/-- What a statement does to a variable: it declares it, with or without a first value, or assigns
it, or leaves it alone. -/
inductive VarStep (P : Diagnostic → Prop) (env : Env) (s : Scope) (x : String) :
    Stmt → Option Var → Prop
  | declared {host : HostType} {text : Option String} {d : Declared}
      (declares : DeclaredAs P env.policy .localVariable host text d) :
      VarStep P env s x (.localVar x host text none) (some ⟨d.position, d.qualifier⟩)
  | initialized {host : HostType} {text : Option String} {e : Expr} {d : Declared} {t : Typed}
      {q : Qualifier} (declares : DeclaredAs P env.policy .localVariable host text d)
      (evaluates : Within P (checkExpr env s e) t)
      (assigns : Within P (assignVar env s d.position t.qualifier) q) :
      VarStep P env s x (.localVar x host text (some e)) (some ⟨d.position, q⟩)
  | assigned {e : Expr} {v : Var} {t : Typed} {q : Qualifier} (var : s.vars.get? x = some v)
      (evaluates : Within P (checkExpr env s e) t)
      (assigns : Within P (assignVar env s v.declared t.qualifier) q) :
      VarStep P env s x (.assign x e) (some ⟨v.declared, q⟩)
  | kept {stmt : Stmt} (declares : ¬ stmt.Declares x) (value : stmt.valueFor? x = none) :
      VarStep P env s x stmt (s.vars.get? x)

theorem varStep_of_checkStmt {stmt : Stmt} (h : Within P (checkStmt env s stmt) s') (x : String) :
    VarStep P env s x stmt (s'.vars.get? x) := by
  cases stmt with
  | localVar name host text init =>
    cases init with
    | none =>
      obtain ⟨d, hd, rfl⟩ := within_localVar_none.1 h
      dsimp only
      rw [OrderedMap.get?_insert]
      by_cases hx : x = name
      · subst hx
        rw [if_pos rfl]
        exact .declared hd
      · rw [if_neg hx]
        exact .kept (Ne.symm hx) (if_neg (Ne.symm hx))
    | some e =>
      obtain ⟨d, t, q, hd, ht, hq, rfl⟩ := within_localVar_some.1 h
      dsimp only
      rw [OrderedMap.get?_insert]
      by_cases hx : x = name
      · subst hx
        rw [if_pos rfl]
        exact .initialized hd ht hq
      · rw [if_neg hx]
        exact .kept (Ne.symm hx) (if_neg (Ne.symm hx))
  | assign target e =>
    obtain ⟨v, t, q, hv, ht, hq, rfl⟩ := within_assign.1 h
    dsimp only
    rw [OrderedMap.get?_insert]
    by_cases hx : x = target
    · subst hx
      rw [if_pos rfl]
      exact .assigned hv ht hq
    · rw [if_neg hx]
      exact .kept id (if_neg (Ne.symm hx))
  | fieldWrite receiver name e =>
    obtain ⟨target, f, value, -, -, -, -, rfl⟩ := within_fieldWrite.1 h
    split <;> exact .kept id rfl
  | eval e =>
    obtain ⟨-, rfl⟩ := within_eval.1 h
    exact .kept id rfl
  | exit value =>
    cases value with
    | none =>
      obtain rfl := within_exit_none.1 h
      exact .kept id rfl
    | some e =>
      obtain ⟨value, -, -, rfl⟩ := within_exit_some.1 h
      exact .kept id rfl

section Standard

variable {cfg : Configuration} {tables : Tables}

/-- A declaration leaves the position of its slot, with the annotation or the qualifier by
default. -/
theorem tracked_of_declaredAs (slot : Slot) {d : Declared}
    (h : DeclaredAs P (.ofConfiguration cfg) slot.kind slot.host slot.text d) :
    ∃ explicit, (Policy.ofConfiguration cfg).resolve? slot.text = .ok explicit ∧
      d.position = (Policy.ofConfiguration cfg).annotate
        (.written slot.kind slot.host explicit) ∧
      d.qualifier = cfg.tracked slot explicit none := by
  obtain ⟨explicit, hexp, -, hq, hpos⟩ := h
  refine ⟨explicit, hexp, hpos, ?_⟩
  cases explicit with
  | some w =>
    have hw := (Policy.qualifierOf_of_isExplicit _ rfl).1 hq
    exact (Option.some.inj hw).symm
  | none =>
    have hbare : (Policy.ofConfiguration cfg).qualifierOf (.written slot.kind slot.host none) =
        .ok (cfg.defaultFor slot.kind slot.host) := Policy.qualifierOf_bare
    rw [Except.ok.inj (hq.symm.trans hbare), Configuration.tracked]
    split
    · next hi => rw [Configuration.defaultFor, if_pos hi]
    · exact (Policy.defaultQualifier_eq cfg slot.kind slot.host).symm

/-- A variable with an annotation requires just what is written there. -/
theorem eq_of_qualifierOf_annotated {π : Policy} {kind : Position.Kind} {host : HostType}
    {w required : Qualifier}
    (h : π.qualifierOf (π.annotate (.written kind host (some w))) = .ok required) :
    required = w := by
  rw [π.annotate_of_isExplicit rfl] at h
  have hw := (Policy.qualifierOf_of_isExplicit _ rfl).1 h
  exact (Option.some.inj hw).symm

/-- An assignment leaves an annotation as it is, and gives the value to any other variable as far as
its type allows. -/
theorem tracked_of_assignVar (slot : Slot) {explicit : Option Qualifier} {value q : Qualifier}
    (h : Within P (assignVar ⟨.ofConfiguration cfg, tables⟩ s
      ((Policy.ofConfiguration cfg).annotate (.written slot.kind slot.host explicit)) value) q) :
    q = cfg.tracked slot explicit (some value) := by
  obtain ⟨required, hreq, hq⟩ := within_assignVar.1 h
  rw [Policy.annotate_isExplicit, Position.written_isExplicit] at hq
  cases explicit with
  | some w => exact hq.2.trans (eq_of_qualifierOf_annotated hreq)
  | none =>
    have hq' : q = cfg.settled _ value := hq
    rw [Policy.annotate_host] at hq'
    exact hq'

variable {start : Scope} {method : String} {params : List ParamDecl} {stmts : List Stmt}
  {stmt : Stmt} {x : String}

/-- What is known about a variable is told by the statements so far and one more. -/
theorem tracks_checkStmt
    (h : Tracks ⟨.ofConfiguration cfg, tables⟩ start method params x stmts (s.vars.get? x))
    (hs : Within P (checkBody ⟨.ofConfiguration cfg, tables⟩ start stmts) s)
    (hstmt : Within P (checkStmt ⟨.ofConfiguration cfg, tables⟩ s stmt) s') :
    Tracks ⟨.ofConfiguration cfg, tables⟩ start method params x (stmts ++ [stmt])
      (s'.vars.get? x) := by
  obtain ⟨d₁, hs, -⟩ := hs
  have hstep := varStep_of_checkStmt hstmt x
  generalize s'.vars.get? x = found at hstep
  cases hstep with
  | @declared host text d declares =>
    obtain ⟨explicit, hexp, hpos, hq⟩ :=
      tracked_of_declaredAs ⟨.localVariable, host, text⟩ declares
    rw [hpos, hq]
    refine .declared rfl (.localVar fun stmt hstmt => by cases hstmt) hexp (.unassigned ?_)
    intro stmt hmem
    obtain rfl := List.mem_singleton.1 hmem
    exact ite_self none
  | @initialized host text e d t q declares evaluates assigns =>
    obtain ⟨explicit, hexp, hpos, -⟩ :=
      tracked_of_declaredAs ⟨.localVariable, host, text⟩ declares
    obtain ⟨d₂, ht, -⟩ := evaluates
    rw [hpos] at assigns
    rw [hpos, tracked_of_assignVar ⟨.localVariable, host, text⟩ assigns]
    have hlast : LastValue _ start x stmts ([] ++ [.localVar x host text (some e)])
        (some t.qualifier) := .of_valueFor? (if_pos rfl) (by rwa [List.append_nil]) ht
    exact .declared rfl (.localVar fun stmt hstmt => by cases hstmt) hexp hlast
  | @assigned e v t q var evaluates assigns =>
    rw [var] at h
    obtain ⟨d₂, ht, -⟩ := evaluates
    cases h with
    | declared split latest resolves given =>
      rw [tracked_of_assignVar _ assigns]
      refine .declared (by rw [split, List.append_assoc]) (latest.concat id) resolves ?_
      exact .of_valueFor? (if_pos rfl) (split ▸ hs) ht
  | kept declares value =>
    generalize s.vars.get? x = found at h
    cases h with
    | undeclared noParam noLocal => exact .undeclared noParam (forall_mem_concat noLocal declares)
    | declared split latest resolves given =>
      exact .declared (by rw [split, List.append_assoc]) (latest.concat declares) resolves
        (given.concat value)

theorem tracks_checkBody
    (hstart : Tracks ⟨.ofConfiguration cfg, tables⟩ start method params x [] (start.vars.get? x))
    (h : Within P (checkBody ⟨.ofConfiguration cfg, tables⟩ start stmts) s) :
    Tracks ⟨.ofConfiguration cfg, tables⟩ start method params x stmts (s.vars.get? x) := by
  -- The statements are taken from the end, as the scope is what those before have left.
  induction stmts using List.reverseRecOn generalizing s with
  | nil =>
    obtain rfl := within_checkBody_nil.1 h
    exact hstart
  | append_singleton stmts stmt ih =>
    obtain ⟨next, hnext, hstmt⟩ := within_checkBody_concat.1 h
    exact tracks_checkStmt (ih hnext) hnext hstmt

/-! ## The parameters -/

/-- The variables with some parameters put on top of them. -/
def bindOnto (m : OrderedMap String Var) (rs : List ResolvedParam) : OrderedMap String Var :=
  (rs.map fun r => (r.name, ⟨r.declared.position, r.declared.qualifier⟩)).foldl
    (fun m e => m.insert e.1 e.2) m

/-- Of several parameters with one name the last one is found. -/
theorem get?_bindOnto {π : Policy} {index : Nat} {rs : List ResolvedParam}
    (h : ParamsDeclaredAs P π method index params rs) (m : OrderedMap String Var) (x : String) :
    (∀ p ∈ params, p.name ≠ x) ∧ (bindOnto m rs).get? x = m.get? x ∨
      ∃ front p back d, params = front ++ p :: back ∧ p.name = x ∧ (∀ q ∈ back, q.name ≠ x) ∧
        DeclaredAs P π (.parameter method (index + front.length)) p.host p.qualifierText d ∧
        (bindOnto m rs).get? x = some ⟨d.position, d.qualifier⟩ := by
  induction h generalizing m with
  | nil => exact Or.inl ⟨fun p hp => (by cases hp), rfl⟩
  | @cons index p d ps rs hd _ ih =>
    have honto : bindOnto m (⟨p.name, d⟩ :: rs) =
        bindOnto (m.insert p.name ⟨d.position, d.qualifier⟩) rs := rfl
    rw [honto]
    rcases ih (m.insert p.name ⟨d.position, d.qualifier⟩) with
      ⟨hnot, hget⟩ | ⟨front, q, back, d', rfl, hname, hlast, hdecl, hget⟩
    · rw [OrderedMap.get?_insert] at hget
      by_cases hx : x = p.name
      · rw [if_pos hx] at hget
        exact Or.inr ⟨[], p, ps, d, rfl, hx.symm, hnot, hd, hget⟩
      · rw [if_neg hx] at hget
        exact Or.inl ⟨List.forall_mem_cons.2 ⟨Ne.symm hx, hnot⟩, hget⟩
    · have hindex : index + 1 + front.length = index + (p :: front).length := by
        rw [List.length_cons, Nat.add_assoc, Nat.add_comm 1]
      exact Or.inr ⟨p :: front, q, back, d', rfl, hname, hlast, hindex ▸ hdecl, hget⟩

/-- Before the first statement a variable is the last parameter of its name. -/
theorem tracks_bindParams {rs : List ResolvedParam}
    (h : ParamsDeclaredAs P (.ofConfiguration cfg) method 0 params rs) (x : String) :
    Tracks ⟨.ofConfiguration cfg, tables⟩ start method params x [] ((bindParams rs).get? x) := by
  have honto : bindParams rs = bindOnto ∅ rs := rfl
  rw [honto]
  rcases get?_bindOnto h ∅ x with
    ⟨hnot, hget⟩ | ⟨front, p, back, d, hsplit, hname, hlast, hdecl, hget⟩
  · rw [hget]
    exact .undeclared hnot fun stmt hstmt => by cases hstmt
  · rw [Nat.zero_add] at hdecl
    obtain ⟨explicit, hexp, hpos, hq⟩ := tracked_of_declaredAs
      ⟨.parameter method front.length, p.host, p.qualifierText⟩ hdecl
    rw [hget, hpos, hq]
    exact .declared rfl (.param hsplit hname hlast fun stmt hstmt => by cases hstmt) hexp
      (.unassigned fun stmt hstmt => by cases hstmt)

end Standard

end Checker

end Mutability
