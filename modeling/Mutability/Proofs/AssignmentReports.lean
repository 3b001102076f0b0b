import Mathlib.Data.List.Nodup
import Mutability.Proofs.Evaluation
import Mutability.Proofs.Faults
import Mutability.Proofs.IllegalAnnotations
import Mutability.Proofs.VariableTracking

/-!
# What is reported of an assignment

Giving a value to a variable is the one thing that can be reported as an assignment of a wrong
type, apart from the writing of fields: no declaration and no expression has such a diagnostic. So
a statement has one exactly if the variable has an annotation that the value does not fit
(`assignmentReported_of_checkStmt`).

The variables of every member of a program are tracked, each from the parameters of the member on,
and every assignment to them is reported in this way (`variables_tracked`).
-/

namespace Mutability

open Checker

/-! ## Diagnostics about assignments -/

/-- A value did not fit the annotation of what it was given to. -/
def Diagnostic.AboutAssignment (d : Diagnostic) : Prop :=
  d.kind = .assignmentTypeIncompatible

/-- A statement that gives the value of `e` to `x` adds the diagnostics of `d`: one of them is about
an assignment just if the latest declaration of `x` has an annotation that the value does not
fit. The list of statements ends with this one, which may itself be the declaration. -/
inductive AssignmentReported (env : Env) (method : String) (params : List ParamDecl) (x : String)
    (stmts : List Stmt) (s : Scope) (e : Expr) (d : Report) : Prop
  | intro {before since : List Stmt} {slot : Slot} {explicit : Option Qualifier} {t : Typed}
      {d' : Report} (split : stmts = before ++ since)
      (latest : LatestDeclaration method params x before since slot)
      (resolves : env.policy.resolve? slot.text = .ok explicit)
      (evaluates : Yields (checkExpr env s e) t d')
      (reported : (∃ y ∈ d.diagnostics, y.diagnostic.AboutAssignment) ↔
        ∃ q, explicit = some q ∧ ¬ t.qualifier ≤ q) :
      AssignmentReported env method params x stmts s e d

namespace Checker

theorem not_aboutAssignment_of_mem_invocation {declared : Qualifier}
    {requested : Option Qualifier} {args params : List Qualifier} :
    ∀ x ∈ Construction.invocationDiagnostics declared requested args params,
      ¬ x.AboutAssignment := by
  intro x hx hkind
  rcases List.mem_append.1 hx with hx | hx
  · rcases List.mem_append.1 hx with hx | hx
    all_goals
      split at hx
      · obtain rfl := List.mem_singleton.1 hx
        cases hkind
      · cases hx
  · cases (kind_of_mem_arguments hx).symm.trans hkind

theorem not_aboutAssignment_of_illegality? {π : Policy} {p : Position} :
    ∀ x ∈ π.illegality? p, ¬ x.AboutAssignment := by
  intro x hx hkind
  have habout := (Position.kind_of_illegality? hx).symm.trans hkind
  split at habout <;> cases habout

variable {P : Diagnostic → Prop} {env : Env} {s s' : Scope}

theorem within_checkArgs_of {Q : Diagnostic → Prop} {args : List Expr} {qs : List Qualifier}
    (ih : ∀ a ∈ args, ∀ t, Within P (checkExpr env s a) t → Within Q (checkExpr env s a) t)
    (h : Within P (checkArgs env s args) qs) : Within Q (checkArgs env s args) qs := by
  rw [within_checkArgs] at h ⊢
  induction h with
  | nil => exact .nil
  | cons hq _ ihqs =>
    rw [List.forall_mem_cons] at ih
    obtain ⟨t, ht, rfl⟩ := hq
    exact .cons ⟨t, ih.1 t ht, rfl⟩ (ihqs ih.2)

/-- Evaluating an expression assigns nothing, so no diagnostic of it is about an assignment. -/
theorem not_aboutAssignment_checkExpr {e : Expr} {t : Typed} (h : Within P (checkExpr env s e) t) :
    Within (fun x => ¬ x.AboutAssignment) (checkExpr env s e) t := by
  induction e using Expr.inductionOn generalizing t with
  | self => exact within_self.2 (within_self.1 h)
  | null => exact within_null.2 (within_null.1 h)
  | literal host => exact within_literal.2 (within_literal.1 h)
  | var name => exact within_var.2 (within_var.1 h)
  | fieldRead receiver name ih =>
    obtain ⟨target, f, htarget, hf, ht⟩ := within_fieldRead.1 h
    exact within_fieldRead.2 ⟨target, f, ih htarget, hf, ht⟩
  | create owner text args ih =>
    obtain ⟨k, requested, qs, hk, hreq, -, hqs, -, ht⟩ := within_create.1 h
    exact within_create.2 ⟨k, requested, qs, hk, hreq, not_aboutAssignment_of_illegality?,
      within_checkArgs_of (fun a ha t => ih a ha) hqs, not_aboutAssignment_of_mem_invocation, ht⟩
  | call receiver name args ihr ih =>
    obtain ⟨target, owner, m, qs, htarget, howner, hm, hqs, -, -, ht⟩ := within_call.1 h
    refine within_call.2 ⟨target, owner, m, qs, ihr htarget, howner, hm,
      within_checkArgs_of (fun a ha t => ih a ha) hqs, ?_, ?_, ht⟩
    · intro x hx hkind
      cases (kind_of_mem_misfit hx).symm.trans hkind
    · intro x hx hkind
      cases (kind_of_mem_arguments hx).symm.trans hkind
  | staticCall owner name args ih =>
    obtain ⟨m, qs, hm, hqs, -, ht⟩ := within_staticCall.1 h
    refine within_staticCall.2 ⟨m, qs, hm, within_checkArgs_of (fun a ha t => ih a ha) hqs, ?_, ht⟩
    intro x hx hkind
    cases (kind_of_mem_arguments hx).symm.trans hkind
  | cast host text operand ih =>
    obtain ⟨inner, explicit, q, hinner, hexp, -, hq, ht⟩ := within_cast.1 h
    exact within_cast.2 ⟨inner, explicit, q, ih hinner, hexp, not_aboutAssignment_of_illegality?,
      hq, ht⟩
  | binary host lhs rhs ihl ihr =>
    obtain ⟨l, r, q, hl, hr, hq, ht⟩ := within_binary.1 h
    exact within_binary.2 ⟨l, r, q, ihl hl, ihr hr, hq, ht⟩

/-- A declaration assigns nothing either. -/
theorem not_aboutAssignment_declaredAs {π : Policy} {kind : Position.Kind} {host : HostType}
    {text : Option String} {d : Declared} (h : DeclaredAs P π kind host text d) :
    DeclaredAs (fun x => ¬ x.AboutAssignment) π kind host text d := by
  obtain ⟨explicit, hexp, -, hd⟩ := h
  exact ⟨explicit, hexp, not_aboutAssignment_of_illegality?, hd⟩

theorem Yields.exists_aboutAssignment_iff {α : Type} {m : Check α} {a : α} {d : Report}
    (h : Yields m a d) : (∃ y ∈ d.diagnostics, y.diagnostic.AboutAssignment) ↔
      ¬ Within (fun x => ¬ x.AboutAssignment) m a := by
  constructor
  · rintro ⟨y, hy, habout⟩ ⟨d', hd', hquiet⟩
    obtain rfl := (h.unique hd').2
    exact hquiet y hy habout
  · intro hloud
    by_contra hnone
    exact hloud ⟨d, h, fun x hx habout => hnone ⟨x, hx, habout⟩⟩

variable {cfg : Configuration} {tables : Tables}

/-- An assignment to a variable is reported just if the value does not fit the annotation. -/
theorem assignVar_quiet_iff (slot : Slot) {explicit : Option Qualifier} {value q : Qualifier}
    (h : Within P (assignVar ⟨.ofConfiguration cfg, tables⟩ s
      ((Policy.ofConfiguration cfg).annotate (.written slot.kind slot.host explicit)) value) q) :
    Within (fun x => ¬ x.AboutAssignment) (assignVar ⟨.ofConfiguration cfg, tables⟩ s
      ((Policy.ofConfiguration cfg).annotate (.written slot.kind slot.host explicit)) value) q ↔
      ¬ ∃ w, explicit = some w ∧ ¬ value ≤ w := by
  rw [within_assignVar] at h ⊢
  obtain ⟨required, hreq, hq⟩ := h
  rw [Policy.annotate_isExplicit, Position.written_isExplicit] at hq ⊢
  cases explicit with
  | none =>
    exact iff_of_true ⟨required, hreq, hq⟩ fun ⟨w, hw, _⟩ => by cases hw
  | some w =>
    obtain rfl := eq_of_qualifierOf_annotated hreq
    constructor
    · rintro ⟨required', hreq', hquiet, -⟩ ⟨w, hw, hfit⟩
      obtain rfl := Option.some.inj hw
      obtain rfl := Except.ok.inj (hreq.symm.trans hreq')
      refine hquiet (.incompatible .assignmentTypeIncompatible value required) ?_ rfl
      rw [misfit, if_neg hfit]
      exact List.mem_singleton_self _
    · intro hfits
      have hfit : value ≤ required := by
        by_contra hfit
        exact hfits ⟨required, rfl, hfit⟩
      refine ⟨required, hreq, ?_, hq.2⟩
      rw [misfit, if_pos hfit]
      intro x hx
      cases hx

variable {start : Scope} {method : String} {params : List ParamDecl} {stmts : List Stmt}
  {stmt : Stmt} {x : String} {e : Expr} {d : Report}

/-- A first value is assigned to the position of the slot, whatever is reported of it. -/
theorem exists_assigned_of_localVar {host : HostType} {text : Option String}
    {explicit : Option Qualifier} {t : Typed}
    (hexp : (Policy.ofConfiguration cfg).resolve? text = .ok explicit)
    (ht : Yields (checkExpr ⟨.ofConfiguration cfg, tables⟩ s e) t d)
    (h : Within P (checkStmt ⟨.ofConfiguration cfg, tables⟩ s
      (.localVar x host text (some e))) s') :
    ∃ decl q, DeclaredAs P (.ofConfiguration cfg) .localVariable host text decl ∧
      decl.position = (Policy.ofConfiguration cfg).annotate
        (.written .localVariable host explicit) ∧
      Within P (checkExpr ⟨.ofConfiguration cfg, tables⟩ s e) t ∧
      Within P (assignVar ⟨.ofConfiguration cfg, tables⟩ s
        ((Policy.ofConfiguration cfg).annotate (.written .localVariable host explicit))
        t.qualifier) q ∧
      s' = { s with vars := s.vars.insert x ⟨decl.position, q⟩ } := by
  obtain ⟨decl, t', q, hdecl, ht', hq, hs'⟩ := within_localVar_some.1 h
  obtain ⟨explicit', hexp', hpos, -⟩ :=
    tracked_of_declaredAs ⟨.localVariable, host, text⟩ hdecl
  obtain rfl := Except.ok.inj (hexp.symm.trans hexp')
  obtain rfl := ht'.eq_of_yields ht
  exact ⟨decl, q, hdecl, hpos, ht', hpos ▸ hq, hs'⟩

/-- A first value is reported just if it does not fit the annotation of the declaration. -/
theorem localVar_quiet_iff {host : HostType} {text : Option String} {explicit : Option Qualifier}
    {t : Typed} (h : Within P (checkStmt ⟨.ofConfiguration cfg, tables⟩ s
      (.localVar x host text (some e))) s')
    (hexp : (Policy.ofConfiguration cfg).resolve? text = .ok explicit)
    (ht : Yields (checkExpr ⟨.ofConfiguration cfg, tables⟩ s e) t d) :
    Within (fun x => ¬ x.AboutAssignment) (checkStmt ⟨.ofConfiguration cfg, tables⟩ s
      (.localVar x host text (some e))) s' ↔ ¬ ∃ w, explicit = some w ∧ ¬ t.qualifier ≤ w := by
  constructor
  · intro hquiet
    obtain ⟨-, q, -, -, -, hq, -⟩ := exists_assigned_of_localVar hexp ht hquiet
    exact (assignVar_quiet_iff ⟨.localVariable, host, text⟩ hq).1 hq
  · intro hfits
    obtain ⟨decl, q, hdecl, hpos, hvalue, hq, hs'⟩ := exists_assigned_of_localVar hexp ht h
    have hassigned := (assignVar_quiet_iff ⟨.localVariable, host, text⟩ hq).2 hfits
    exact within_localVar_some.2 ⟨decl, t, q, not_aboutAssignment_declaredAs hdecl,
      not_aboutAssignment_checkExpr hvalue, hpos ▸ hassigned, hs'⟩

/-- A later value is reported just if it does not fit the annotation of the variable. -/
theorem assign_quiet_iff {slot : Slot} {explicit : Option Qualifier} {v : Var} {t : Typed}
    (h : Within P (checkStmt ⟨.ofConfiguration cfg, tables⟩ s (.assign x e)) s')
    (hv : s.vars.get? x = some v)
    (hpos : v.declared = (Policy.ofConfiguration cfg).annotate
      (.written slot.kind slot.host explicit))
    (ht : Yields (checkExpr ⟨.ofConfiguration cfg, tables⟩ s e) t d) :
    Within (fun x => ¬ x.AboutAssignment) (checkStmt ⟨.ofConfiguration cfg, tables⟩ s
      (.assign x e)) s' ↔ ¬ ∃ w, explicit = some w ∧ ¬ t.qualifier ≤ w := by
  obtain ⟨v', t', q, hv', ht', hq, hs'⟩ := within_assign.1 h
  obtain rfl := Option.some.inj (hv.symm.trans hv')
  obtain rfl := ht'.eq_of_yields ht
  rw [hpos] at hq
  rw [← assignVar_quiet_iff slot hq]
  constructor
  · intro hquiet
    obtain ⟨v', t', q', hv', ht'', hq', -⟩ := within_assign.1 hquiet
    obtain rfl := Option.some.inj (hv.symm.trans hv')
    obtain rfl := ht''.eq_of_yields ht
    rw [hpos] at hq'
    obtain rfl := (tracked_of_assignVar slot hq).trans (tracked_of_assignVar slot hq').symm
    exact hq'
  · intro hassigned
    exact within_assign.2 ⟨v, _, q, hv, not_aboutAssignment_checkExpr ht', hpos ▸ hassigned, hs'⟩

/-- A statement that gives a value to a variable reports it as its latest declaration asks. -/
theorem assignmentReported_of_checkStmt
    (h : Tracks ⟨.ofConfiguration cfg, tables⟩ start method params x stmts (s.vars.get? x))
    (he : stmt.valueFor? x = some e)
    (hstmt : Yields (checkStmt ⟨.ofConfiguration cfg, tables⟩ s stmt) s' d) :
    AssignmentReported ⟨.ofConfiguration cfg, tables⟩ method params x (stmts ++ [stmt]) s e d := by
  have hrun : Within (fun _ => True) (checkStmt ⟨.ofConfiguration cfg, tables⟩ s stmt) s' :=
    hstmt.within
  cases stmt with
  | localVar name host text init =>
    dsimp only [Stmt.valueFor?] at he
    split at he
    · next hname =>
      subst hname he
      obtain ⟨decl, t, q, hdecl, ⟨d', ht, -⟩, -⟩ := within_localVar_some.1 hrun
      obtain ⟨explicit, hexp, -⟩ := hdecl
      refine .intro rfl (.localVar fun stmt hstmt => by cases hstmt) hexp ht ?_
      rw [hstmt.exists_aboutAssignment_iff, localVar_quiet_iff hrun hexp ht, not_not]
    · cases he
  | assign target value =>
    dsimp only [Stmt.valueFor?] at he
    split at he
    · next hname =>
      subst hname
      obtain rfl := Option.some.inj he
      obtain ⟨v, t, q, hv, ⟨d', ht, -⟩, -⟩ := within_assign.1 hrun
      rw [hv] at h
      cases h with
      | declared split latest resolves given =>
        refine .intro (by rw [split, List.append_assoc]) (latest.concat id) resolves ht ?_
        rw [hstmt.exists_aboutAssignment_iff, assign_quiet_iff hrun hv rfl ht, not_not]
    · cases he
  | fieldWrite receiver name value => cases he
  | eval value => cases he
  | exit value => cases he

end Checker

/-! ## Members of programs -/

/-- The class that a name stands for: of several with this name it is the last. -/
def Program.class? (p : Program) (name : String) : Option ClassDecl :=
  p.classes.reverse.find? fun c => c.name = name

/-- The name of a member in the positions of its parameters, and the parameters. -/
def ClassDecl.params? (c : ClassDecl) : MemberIndex → Option (String × List ParamDecl)
  | .constructor index => c.constructors[index]?.map fun k => (constructorName, k.params)
  | .method index => c.methods[index]?.map fun m => (m.name, m.params)

/-- In the run of a program, the first statements of a member are checked with these tables from
`start` on, and leave the scope `s`. -/
inductive Program.Passes (π : Policy) (p : Program) (c : ClassDecl) (member : MemberIndex)
    (tables : Tables) (start : Scope) (stmts : List Stmt) (s : Scope) : Prop
  | intro {table : ClassTable} {rest : List Stmt} {d₁ d₂ : Report} (mem : c ∈ p.classes)
      (first : Yields (resolveClasses π ∅ p.classes) tables d₁)
      (own : tables.get? c.name = some table) (starts : startOf? c table member = some start)
      (body_eq : c.body? member = some (stmts ++ rest))
      (reaches : Yields (checkBody ⟨π, tables⟩ start stmts) s d₂) :
      Program.Passes π p c member tables start stmts s

namespace Checker

variable {P : Diagnostic → Prop} {π : Policy}

theorem exists_within_append {env : Env} {s s' : Scope} {stmts rest : List Stmt}
    (h : Within P (checkBody env s (stmts ++ rest)) s') :
    ∃ next, Within P (checkBody env s stmts) next := by
  induction stmts generalizing s with
  | nil => exact ⟨s, within_checkBody_nil.2 rfl⟩
  | cons first stmts ih =>
    obtain ⟨after, hfirst, hrest⟩ := within_checkBody_cons.1 h
    obtain ⟨next, hnext⟩ := ih hrest
    exact ⟨next, within_checkBody_cons.2 ⟨after, hfirst, hnext⟩⟩

/-- The tables have the class that a name stands for. -/
theorem class?_of_get? {p : Program} {tables : Tables} {owner : String} {table : ClassTable}
    (h : Within P (resolveClasses π ∅ p.classes) tables) (ht : tables.get? owner = some table) :
    ∃ c, p.class? owner = some c ∧ ClassDeclaredAs P π c table := by
  rcases exists_last_class_of_get? h ht with
    ⟨before, c, after, hcs, hname, hafter, hdecl⟩ | ⟨-, hempty⟩
  · refine ⟨c, ?_, hdecl⟩
    have hnone : after.reverse.find? (fun c => c.name = owner) = none := by
      rw [List.find?_eq_none]
      intro c hc heq
      exact hafter (List.mem_map.2 ⟨c, List.mem_reverse.1 hc, of_decide_eq_true heq⟩)
    rw [Program.class?, hcs, List.reverse_append, List.reverse_cons, List.append_assoc,
      List.find?_append, hnone]
    simp [hname]
  · cases hempty

/-- A body starts with the parameters that its member has in the table. -/
theorem exists_params_of_startOf? {owner c : ClassDecl} {table : ClassTable}
    {member : MemberIndex} {start : Scope} (h : ClassDeclaredAs P π owner table)
    (hstart : startOf? c table member = some start) :
    ∃ method params rs, owner.params? member = some (method, params) ∧
      ParamsDeclaredAs P π method 0 params rs ∧ start.vars = bindParams rs := by
  cases member with
  | constructor index =>
    obtain ⟨r, hr, rfl⟩ := Option.map_eq_some_iff.1 hstart
    rcases getElem?_cases_of_forall₂ h.constructors index with ⟨-, hnone⟩ | ⟨k, r', hk, hr', hdecl⟩
    · cases hnone.symm.trans hr
    · obtain rfl := Option.some.inj (hr'.symm.trans hr)
      exact ⟨constructorName, k.params, r'.params, by rw [ClassDecl.params?, hk]; rfl,
        hdecl.params, rfl⟩
  | method index =>
    obtain ⟨m, -, hm⟩ := Option.bind_eq_some_iff.1 hstart
    obtain ⟨r, hr, rfl⟩ := Option.map_eq_some_iff.1 hm
    rcases getElem?_cases_of_forall₂ h.methods index with ⟨-, hnone⟩ | ⟨m', r', hm', hr', hdecl⟩
    · cases hnone.symm.trans hr
    · obtain rfl := Option.some.inj (hr'.symm.trans hr)
      exact ⟨m'.name, m'.params, r'.params, by rw [ClassDecl.params?, hm']; rfl, hdecl.params,
        rfl⟩

end Checker

namespace Program

variable {π : Policy} {p : Program} {c : ClassDecl} {member : MemberIndex}

theorem mem_of_class? {name : String} (h : p.class? name = some c) :
    c ∈ p.classes ∧ c.name = name := by
  have hname := List.find?_some h
  exact ⟨List.mem_reverse.1 (List.mem_of_find?_eq_some h), of_decide_eq_true hname⟩

/-- Where no two classes share a name, a class has its own name. -/
theorem eq_of_class? (hn : (p.classes.map ClassDecl.name).Nodup) (hc : c ∈ p.classes)
    {owner : ClassDecl} (h : p.class? c.name = some owner) : owner = c := by
  obtain ⟨hmem, hname⟩ := mem_of_class? h
  exact List.inj_on_of_nodup_map hn hmem hc hname

/-- A run that ends checks the first statements of every body. -/
theorem exists_passes {r : Report} (h : p.check π = .ok r) (hc : c ∈ p.classes)
    {stmts rest : List Stmt} (hbody : c.body? member = some (stmts ++ rest)) :
    ∃ tables start s, p.Passes π c member tables start stmts s := by
  obtain ⟨tables, ⟨d₁, hfirst, -⟩, hclasses⟩ := check_within (P := fun _ => True).1
    ⟨r, h, fun _ _ => trivial⟩
  obtain ⟨table, start, s', htable, hstart, hrun⟩ := exists_within_body (hclasses c hc) hbody
  obtain ⟨s, d₂, hs, -⟩ := exists_within_append hrun
  exact ⟨tables, start, s, .intro hc hfirst htable hstart hbody hs⟩

end Program

/-- After any first part of a body, what is known about a variable is told by its latest declaration
and by the last value since; and an assignment that comes next is reported just if the variable has
an annotation that the value does not fit. The parameters are those of the class that the name of
the class stands for, which is the class itself unless another one has taken its name. -/
theorem variables_tracked (cfg : Configuration) (p : Program) (c : ClassDecl)
    (member : MemberIndex) (tables : Tables) (start : Scope) (stmts : List Stmt) (s : Scope)
    (h : p.Passes (.ofConfiguration cfg) c member tables start stmts s) :
    ∃ owner method params, p.class? c.name = some owner ∧
      ((p.classes.map ClassDecl.name).Nodup → owner = c) ∧
      owner.params? member = some (method, params) ∧
      (∀ x, Tracks ⟨.ofConfiguration cfg, tables⟩ start method params x stmts (s.vars.get? x)) ∧
      ∀ stmt x e s' d, stmt.valueFor? x = some e →
        Yields (checkStmt ⟨.ofConfiguration cfg, tables⟩ s stmt) s' d →
        AssignmentReported ⟨.ofConfiguration cfg, tables⟩ method params x (stmts ++ [stmt])
          s e d := by
  obtain ⟨hc, hfirst, hown, hstart, -, hreaches⟩ := h
  obtain ⟨owner, howner, hdecl⟩ := class?_of_get? (P := fun _ => True) hfirst.within hown
  obtain ⟨method, params, rs, hparams, hrs, hvars⟩ := exists_params_of_startOf? hdecl hstart
  have htracks : ∀ x, Tracks ⟨.ofConfiguration cfg, tables⟩ start method params x stmts
      (s.vars.get? x) := by
    intro x
    refine tracks_checkBody (P := fun _ => True) ?_ hreaches.within
    rw [hvars]
    exact tracks_bindParams hrs x
  refine ⟨owner, method, params, howner, fun hn => Program.eq_of_class? hn hc howner, hparams,
    htracks, ?_⟩
  intro stmt x e s' d he hstmt
  exact assignmentReported_of_checkStmt (htracks x) he hstmt

/-- Two parameters share a name, and a local variable takes it over. The first value of `y` is the
`readonly` one that the parameter `x` was given just before. -/
def swapMethod : MethodDecl where
  name := "swap"
  isStatic := true
  receiverText := none
  params := [⟨"x", .declared "Pair", some "@Mutable"⟩, ⟨"x", .declared "Pair", none⟩,
    ⟨"r", .declared "Pair", some "@Readonly"⟩]
  returns := none
  returnText := none
  body := [.assign "x" (.var "r"), .localVar "y" (.declared "Pair") (some "@Mutable")
    (some (.var "x")), .localVar "x" (.primitive .int) none none, .assign "x" (.var "y")]

def pairClass : ClassDecl where
  name := "Pair"
  fields := []
  constructors := []
  methods := [swapMethod]

/-- The variables of the method are tracked over its whole body, and the first value of `y` is all
that is reported. -/
theorem variables_tracked_pairClass :
    ∃ r tables start s, (Program.mk [pairClass]).check (.ofConfiguration .standard) = .ok r ∧
      r.diagnostics.map (fun x => x.diagnostic.kind) = [.assignmentTypeIncompatible] ∧
      (Program.mk [pairClass]).Passes (.ofConfiguration .standard) pairClass (.method 0) tables
        start swapMethod.body s ∧
      ∀ x, Tracks ⟨.ofConfiguration .standard, tables⟩ start "swap" swapMethod.params x
        swapMethod.body (s.vars.get? x) := by
  have hkinds : ((Program.mk [pairClass]).check (.ofConfiguration .standard)).map
      (fun r => r.diagnostics.map fun x => x.diagnostic.kind) =
        .ok [.assignmentTypeIncompatible] := by
    decide +kernel
  cases hr : (Program.mk [pairClass]).check (.ofConfiguration .standard) with
  | error f => rw [hr] at hkinds; cases hkinds
  | ok r =>
    rw [hr] at hkinds
    have hbody : pairClass.body? (.method 0) = some (swapMethod.body ++ []) := rfl
    obtain ⟨tables, start, s, hs⟩ := Program.exists_passes hr List.mem_cons_self hbody
    obtain ⟨owner, method, params, -, howner, hparams, htracks, -⟩ :=
      variables_tracked .standard ⟨[pairClass]⟩ pairClass (.method 0) tables start _ s hs
    obtain rfl := howner (by decide)
    obtain ⟨rfl, rfl⟩ := Prod.mk.inj (Option.some.inj hparams)
    exact ⟨r, tables, start, s, rfl, Except.ok.inj hkinds, hs, htracks⟩

end Mutability
