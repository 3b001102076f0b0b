import Mutability.Proofs.BodyRuns

/-!
# The evaluations in a run

Checking a program evaluates every expression in its bodies, each in the scope that the statements
before it have left. `Program.Evaluates` names one such evaluation: the class, the member, the
number of the statement, the expression, which may be any part of those that the statement has, and
the type that comes out.

A run that ends evaluates every part of every statement (`Program.exists_evaluates`), and what
holds of all diagnostics of the run holds of those of each evaluation (`Program.Evaluates.within`).
An evaluation is one in a scope in which the run reaches the statement (`Program.Reaches`).
-/

namespace Mutability

/-! ## Parts of expressions and statements -/

/-- The expressions of which an expression is made. -/
def Expr.children : Expr → List Expr
  | .self | .null | .literal _ | .var _ => []
  | .fieldRead receiver _ => [receiver]
  | .create _ _ args => args
  | .call receiver _ args => receiver :: args
  | .staticCall _ _ args => args
  | .cast _ _ operand => [operand]
  | .binary _ lhs rhs => [lhs, rhs]

/-- The expression itself, or one that occurs in it at any depth. -/
inductive Expr.PartOf (e : Expr) : Expr → Prop
  | refl : PartOf e e
  | child {c e' : Expr} : c ∈ e'.children → PartOf e c → PartOf e e'

theorem Expr.PartOf.trans {a b c : Expr} (h : a.PartOf b) (h' : b.PartOf c) : a.PartOf c := by
  induction h' with
  | refl => exact h
  | child hc _ ih => exact .child hc ih

/-- The expressions that a statement has. -/
def Stmt.exprs : Stmt → List Expr
  | .localVar _ _ _ init => init.toList
  | .assign _ value => [value]
  | .fieldWrite receiver _ value => [receiver, value]
  | .eval e => [e]
  | .exit value => value.toList

/-- The expression occurs in the statement. -/
def Stmt.Contains (stmt : Stmt) (e : Expr) : Prop :=
  ∃ e' ∈ stmt.exprs, e.PartOf e'

/-- A constructor or a method, by its number. -/
inductive MemberIndex
  | constructor (index : Nat)
  | method (index : Nat)
deriving DecidableEq, Repr

/-- The body of a member. -/
def ClassDecl.body? (c : ClassDecl) : MemberIndex → Option (List Stmt)
  | .constructor index => c.constructors[index]?.map ConstructorDecl.body
  | .method index => c.methods[index]?.map MethodDecl.body

namespace Checker

/-- The scope in which the body of a member starts. -/
def startOf? (c : ClassDecl) (table : ClassTable) : MemberIndex → Option Scope
  | .constructor index => table.constructors[index]?.map (constructorScope c index)
  | .method index => c.methods[index]?.bind fun m => table.methods[index]?.map (methodScope c m)

end Checker

open Checker

/-- In the run of a program, the statement numbered `i` of a member is reached, and its part `e` is
given the type `t`. -/
inductive Program.Evaluates (π : Policy) (p : Program) (c : ClassDecl) (member : MemberIndex)
    (i : Nat) (e : Expr) (t : Typed) : Prop
  | intro {tables : Tables} {table : ClassTable} {start s : Scope} {body : List Stmt} {stmt : Stmt}
      {d₁ d₂ d₃ : Report} (mem : c ∈ p.classes)
      (first : Yields (resolveClasses π ∅ p.classes) tables d₁)
      (own : tables.get? c.name = some table) (starts : startOf? c table member = some start)
      (body_eq : c.body? member = some body) (stmt_eq : body[i]? = some stmt)
      (contains : stmt.Contains e)
      (reaches : Yields (checkBody ⟨π, tables⟩ start (body.take i)) s d₂)
      (value : Yields (checkExpr ⟨π, tables⟩ s e) t d₃) : Program.Evaluates π p c member i e t

/-- In the run of a program, the statement numbered `i` of a member is reached with these tables and
in the scope `s`. -/
inductive Program.Reaches (π : Policy) (p : Program) (c : ClassDecl) (member : MemberIndex)
    (i : Nat) (tables : Tables) (stmt : Stmt) (s : Scope) : Prop
  | intro {table : ClassTable} {start : Scope} {body : List Stmt} {d₁ d₂ : Report}
      (mem : c ∈ p.classes) (first : Yields (resolveClasses π ∅ p.classes) tables d₁)
      (own : tables.get? c.name = some table) (starts : startOf? c table member = some start)
      (body_eq : c.body? member = some body) (stmt_eq : body[i]? = some stmt)
      (reaches : Yields (checkBody ⟨π, tables⟩ start (body.take i)) s d₂) :
      Program.Reaches π p c member i tables stmt s

namespace Checker

variable {P : Diagnostic → Prop} {env : Env} {s s' : Scope}

/-! ## Runs of parts -/

theorem Within.eq_of_yields {α : Type} {m : Check α} {a b : α} {d : Report} (h : Within P m a)
    (hy : Yields m b d) : b = a := by
  obtain ⟨d', hd', -⟩ := h
  exact (hy.unique hd').1

theorem exists_within_of_mem_args {args : List Expr} {qs : List Qualifier}
    (h : Within P (checkArgs env s args) qs) {e : Expr} (he : e ∈ args) :
    ∃ t, Within P (checkExpr env s e) t := by
  obtain ⟨i, hi⟩ := List.getElem?_of_mem he
  obtain ⟨q, -, t, ht, -⟩ := getElem?_of_forall₂ (within_checkArgs.1 h) hi
  exact ⟨t, ht⟩

theorem exists_within_of_mem_children {e c : Expr} {t : Typed}
    (h : Within P (checkExpr env s e) t) (hc : c ∈ e.children) :
    ∃ t', Within P (checkExpr env s c) t' := by
  cases e with
  | self => cases hc
  | null => cases hc
  | literal host => cases hc
  | var name => cases hc
  | fieldRead receiver name =>
    obtain ⟨target, f, htarget, -⟩ := within_fieldRead.1 h
    obtain rfl := List.mem_singleton.1 hc
    exact ⟨target, htarget⟩
  | create owner text args =>
    obtain ⟨k, requested, qs, -, -, -, hqs, -⟩ := within_create.1 h
    exact exists_within_of_mem_args hqs hc
  | call receiver name args =>
    obtain ⟨target, owner, m, qs, htarget, -, -, hqs, -⟩ := within_call.1 h
    rcases List.mem_cons.1 hc with rfl | hc
    · exact ⟨target, htarget⟩
    · exact exists_within_of_mem_args hqs hc
  | staticCall owner name args =>
    obtain ⟨m, qs, -, hqs, -⟩ := within_staticCall.1 h
    exact exists_within_of_mem_args hqs hc
  | cast host text operand =>
    obtain ⟨inner, explicit, q, hinner, -⟩ := within_cast.1 h
    obtain rfl := List.mem_singleton.1 hc
    exact ⟨inner, hinner⟩
  | binary host lhs rhs =>
    obtain ⟨l, r, q, hl, hr, -⟩ := within_binary.1 h
    rcases List.mem_cons.1 hc with rfl | hc
    · exact ⟨l, hl⟩
    · obtain rfl := List.mem_singleton.1 hc
      exact ⟨r, hr⟩

theorem exists_within_of_partOf {e e' : Expr} (hp : e.PartOf e') {t : Typed}
    (h : Within P (checkExpr env s e') t) : ∃ t', Within P (checkExpr env s e) t' := by
  induction hp generalizing t with
  | refl => exact ⟨t, h⟩
  | child hc _ ih =>
    obtain ⟨t', ht'⟩ := exists_within_of_mem_children h hc
    exact ih ht'

theorem exists_within_of_mem_exprs {stmt : Stmt} (h : Within P (checkStmt env s stmt) s')
    {e : Expr} (he : e ∈ stmt.exprs) : ∃ t, Within P (checkExpr env s e) t := by
  cases stmt with
  | localVar name host text init =>
    cases init with
    | none => cases he
    | some value =>
      obtain ⟨d, t, q, -, ht, -⟩ := within_localVar_some.1 h
      obtain rfl := List.mem_singleton.1 he
      exact ⟨t, ht⟩
  | assign target value =>
    obtain ⟨v, t, q, -, ht, -⟩ := within_assign.1 h
    obtain rfl := List.mem_singleton.1 he
    exact ⟨t, ht⟩
  | fieldWrite receiver name value =>
    obtain ⟨target, f, t, htarget, -, ht, -⟩ := within_fieldWrite.1 h
    rcases List.mem_cons.1 he with rfl | he
    · exact ⟨target, htarget⟩
    · obtain rfl := List.mem_singleton.1 he
      exact ⟨t, ht⟩
  | eval value =>
    obtain ⟨ht, -⟩ := within_eval.1 h
    obtain rfl := List.mem_singleton.1 he
    exact ht
  | exit value =>
    cases value with
    | none => cases he
    | some value =>
      obtain ⟨t, ht, -⟩ := within_exit_some.1 h
      obtain rfl := List.mem_singleton.1 he
      exact ⟨t, ht⟩

/-- A statement that is checked has all its parts evaluated. -/
theorem exists_within_of_contains {stmt : Stmt} (h : Within P (checkStmt env s stmt) s')
    {e : Expr} (he : stmt.Contains e) : ∃ t, Within P (checkExpr env s e) t := by
  obtain ⟨e', he', hpart⟩ := he
  obtain ⟨t, ht⟩ := exists_within_of_mem_exprs h he'
  exact exists_within_of_partOf hpart ht

/-- A body that is checked has every statement checked, in the scope that those before it leave. -/
theorem exists_within_take {body : List Stmt} (h : Within P (checkBody env s body) s') {i : Nat}
    {stmt : Stmt} (hi : body[i]? = some stmt) :
    ∃ before after, Within P (checkBody env s (body.take i)) before ∧
      Within P (checkStmt env before stmt) after := by
  induction body generalizing s i with
  | nil => cases hi
  | cons first rest ih =>
    obtain ⟨next, hfirst, hrest⟩ := within_checkBody_cons.1 h
    cases i with
    | zero =>
      obtain rfl : first = stmt := Option.some.inj hi
      exact ⟨s, next, within_checkBody_nil.2 rfl, hfirst⟩
    | succ i =>
      obtain ⟨before, after, htake, hstmt⟩ := ih hrest hi
      exact ⟨before, after, within_checkBody_cons.2 ⟨next, hfirst, htake⟩, hstmt⟩

/-- A class that is checked has the bodies of all its members checked, each from its start. -/
theorem exists_within_body {c : ClassDecl} (h : Within P (checkClass env c) ())
    {member : MemberIndex} {body : List Stmt} (hbody : c.body? member = some body) :
    ∃ table start s', env.tables.get? c.name = some table ∧ startOf? c table member = some start ∧
      Within P (checkBody env start body) s' := by
  obtain ⟨hcons, hmeth⟩ := within_checkClass.1 h
  cases member with
  | constructor i =>
    obtain ⟨k, hk, rfl⟩ := Option.map_eq_some_iff.1 hbody
    obtain ⟨summary, hsum⟩ := hcons i k hk
    obtain ⟨table, r, s', htable, hr, -, hrun, -⟩ := within_checkConstructor.1 hsum
    exact ⟨table, _, s', htable, Option.map_eq_some_iff.2 ⟨r, hr, rfl⟩, hrun⟩
  | method i =>
    obtain ⟨m, hm, rfl⟩ := Option.map_eq_some_iff.1 hbody
    obtain ⟨table, r, s', htable, hr, hrun⟩ := within_checkMethod.1 (hmeth i m hm)
    refine ⟨table, methodScope c m r, s', htable, ?_, hrun⟩
    simp only [startOf?, hm, hr, Option.bind_some, Option.map_some]

end Checker

/-! ## Evaluations -/

namespace Program

variable {P : Diagnostic → Prop} {π : Policy} {p : Program} {r : Report} {c : ClassDecl}
  {member : MemberIndex} {i : Nat} {e : Expr}

/-- A run that ends evaluates every part of every statement of every body. -/
theorem exists_evaluates (h : p.check π = .ok r) (hc : c ∈ p.classes) {body : List Stmt}
    (hbody : c.body? member = some body) {stmt : Stmt} (hstmt : body[i]? = some stmt)
    (he : stmt.Contains e) : ∃ t, p.Evaluates π c member i e t := by
  obtain ⟨tables, ⟨d₁, hfirst, -⟩, hclasses⟩ := check_within (P := fun _ => True).1
    ⟨r, h, fun _ _ => trivial⟩
  obtain ⟨table, start, s', htable, hstart, hrun⟩ := exists_within_body (hclasses c hc) hbody
  obtain ⟨s, after, ⟨d₂, htake, hd₂⟩, hafter⟩ := exists_within_take hrun hstmt
  obtain ⟨t, d₃, ht, -⟩ := exists_within_of_contains hafter he
  exact ⟨t, .intro hc hfirst htable hstart hbody hstmt he htake ht⟩

theorem evaluates_iff {t : Typed} :
    p.Evaluates π c member i e t ↔ ∃ tables stmt s d, p.Reaches π c member i tables stmt s ∧
      stmt.Contains e ∧ Yields (checkExpr ⟨π, tables⟩ s e) t d := by
  constructor
  · rintro ⟨hc, hfirst, htable, hstart, hbody, hstmt, hpart, htake, ht⟩
    exact ⟨_, _, _, _, ⟨hc, hfirst, htable, hstart, hbody, hstmt, htake⟩, hpart, ht⟩
  · rintro ⟨tables, stmt, s, d, ⟨hc, hfirst, htable, hstart, hbody, hstmt, htake⟩, hpart, ht⟩
    exact ⟨hc, hfirst, htable, hstart, hbody, hstmt, hpart, htake, ht⟩

/-- The run up to a statement, and of the statement itself, has diagnostics that satisfy what those
of the whole run satisfy. -/
theorem Reaches.within (h : p.check π = .ok r) (hr : ∀ x ∈ r.diagnostics, P x.diagnostic)
    {tables : Tables} {stmt : Stmt} {s : Scope} (hs : p.Reaches π c member i tables stmt s) :
    ∃ table start body after, Within P (resolveClasses π ∅ p.classes) tables ∧
      tables.get? c.name = some table ∧ startOf? c table member = some start ∧
      c.body? member = some body ∧ body[i]? = some stmt ∧
      Within P (checkBody ⟨π, tables⟩ start (body.take i)) s ∧
      Within P (checkStmt ⟨π, tables⟩ s stmt) after := by
  obtain ⟨tables, hfirst', hclasses⟩ := check_within.1 ⟨r, h, hr⟩
  obtain ⟨hc, hfirst, htable, hstart, hbody, hstmt, htake⟩ := hs
  -- The statement comes with tables and scopes of its own; they are those of the run, since a
  -- computation has one result.
  obtain rfl := hfirst'.eq_of_yields hfirst
  obtain ⟨table', start', s', htable', hstart', hrun⟩ := exists_within_body (hclasses c hc) hbody
  obtain rfl := Option.some.inj (htable.symm.trans htable')
  obtain rfl := Option.some.inj (hstart.symm.trans hstart')
  obtain ⟨before, after, hbefore, hafter⟩ := exists_within_take hrun hstmt
  obtain rfl := hbefore.eq_of_yields htake
  exact ⟨_, _, _, after, hfirst', htable, hstart, hbody, hstmt, hbefore, hafter⟩

/-- The evaluation as a run whose diagnostics all satisfy what those of the whole run satisfy. -/
theorem Evaluates.within (h : p.check π = .ok r) (hr : ∀ x ∈ r.diagnostics, P x.diagnostic)
    {t : Typed} (he : p.Evaluates π c member i e t) :
    ∃ tables table start body s, c ∈ p.classes ∧
      Within P (resolveClasses π ∅ p.classes) tables ∧ tables.get? c.name = some table ∧
      startOf? c table member = some start ∧
      Within P (checkBody ⟨π, tables⟩ start body) s ∧ Within P (checkExpr ⟨π, tables⟩ s e) t := by
  obtain ⟨tables, stmt, s, d, hs, hpart, ht⟩ := evaluates_iff.1 he
  obtain ⟨table, start, body, after, hfirst, htable, hstart, -, -, hbefore, hafter⟩ :=
    hs.within h hr
  obtain ⟨t', ht'⟩ := exists_within_of_contains hafter hpart
  obtain rfl := ht'.eq_of_yields ht
  obtain ⟨hc, -⟩ := hs
  exact ⟨tables, table, start, _, s, hc, hfirst, htable, hstart, hbefore, ht'⟩

end Program

end Mutability
