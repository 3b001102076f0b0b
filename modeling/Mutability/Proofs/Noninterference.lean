import Mutability.Proofs.Erasure

/-!
# Annotations do not decide whether a program can be checked

Two programs that differ in their annotations only are checked to the same end under any two
policies that have a qualifier for every position: both runs end in the same fault, or both end in
a report, and the reports list positions of the same kinds and types in the same order
(`outcome_independent_of_annotations`). Neither run is compared with the other one directly; each
goes the way of the run on the erased program, which the two have in common.

An annotation that is consulted and not known ends the run in a fault of its own. Programs that
differ in their annotations need not share that fault, and `AnnotationsKnown` leaves it out. It
leaves nothing else out: a run that ends so ends with the fault of an annotation of its program
(`mirrors_checkProgram`).
-/

namespace Mutability

namespace Checker

/-- Equal but for qualifiers, as far as faults can tell. -/
structure ScopeMirrors (s s₀ : Scope) : Prop where
  location : s.location = s₀.location
  receiver : s.receiver.isSome = s₀.receiver.isSome
  vars : MapsMirror (fun v v₀ : Var => v.declared.host = v₀.declared.host) s.vars s₀.vars

theorem ScopeMirrors.insert {s s₀ : Scope} (hs : ScopeMirrors s s₀) (x : String) {v v₀ : Var}
    (hv : v.declared.host = v₀.declared.host) :
    ScopeMirrors { s with vars := s.vars.insert x v } { s₀ with vars := s₀.vars.insert x v₀ } :=
  ⟨hs.location, hs.receiver, hs.vars.insert x hv⟩

theorem ScopeMirrors.var {s s₀ : Scope} (hs : ScopeMirrors s s₀) (x : String) :
    Agree (fun v v₀ => v.declared.host = v₀.declared.host) (s.var x) (s₀.var x) := by
  rw [Scope.var_eq, Scope.var_eq, hs.location]
  exact agree_orFault (by simp) (hs.vars x)

theorem ScopeMirrors.self {s s₀ : Scope} (hs : ScopeMirrors s s₀) :
    Agree (fun _ _ => True) s.self s₀.self := by
  rw [Scope.self_eq, Scope.self_eq, hs.location]
  have hreceiver := hs.receiver
  cases hr : s.receiver with
  | none =>
    cases hr₀ : s₀.receiver with
    | none => exact .error (by simp)
    | some q => rw [hr, hr₀] at hreceiver; cases hreceiver
  | some q =>
    cases hr₀ : s₀.receiver with
    | none => rw [hr, hr₀] at hreceiver; cases hreceiver
    | some q₀ => exact .ok trivial

section

variable {U : String → Prop} {π π₀ : Policy} (hπ : Stage.generic ∈ π.stages)
  (hπ₀ : Stage.generic ∈ π₀.stages) {ts ts₀ : Tables} (hts : TablesMirror ts ts₀)

/-! ## Expressions -/

theorem mirrors_checkArgs_of {s s₀ : Scope} {args : List Expr}
    (h : ∀ a ∈ args, (∀ t ∈ a.annotations, Accounted π U t) →
      Mirrors U (fun t t₀ => t.host = t₀.host) (checkExpr ⟨π, ts⟩ s a)
        (checkExpr ⟨π₀, ts₀⟩ s₀ a.erase))
    (ht : ∀ t ∈ Expr.annotationsAll args, Accounted π U t) :
    Mirrors U (fun _ _ => True) (checkArgs ⟨π, ts⟩ s args)
      (checkArgs ⟨π₀, ts₀⟩ s₀ (Expr.eraseAll args)) := by
  induction args with
  | nil =>
    rw [Expr.eraseAll, checkArgs, checkArgs]
    exact mirrors_pure trivial
  | cons e rest ih =>
    rw [Expr.annotationsAll, List.forall_mem_append] at ht
    rw [Expr.eraseAll, checkArgs, checkArgs]
    refine (h e List.mem_cons_self ht.1).bind fun t t₀ _ => ?_
    refine (ih (fun a ha => h a (List.mem_cons_of_mem e ha)) ht.2).bind fun qs qs₀ _ => ?_
    exact mirrors_pure trivial

include hπ hπ₀ hts

/-- An expression has the type that its erasure has, and fails where its erasure fails. -/
theorem mirrors_checkExpr {s s₀ : Scope} (hs : ScopeMirrors s s₀) {e : Expr}
    (ha : ∀ t ∈ e.annotations, Accounted π U t) :
    Mirrors U (fun t t₀ => t.host = t₀.host) (checkExpr ⟨π, ts⟩ s e)
      (checkExpr ⟨π₀, ts₀⟩ s₀ e.erase) := by
  induction e using Expr.inductionOn with
  | self =>
    rw [Expr.erase, checkExpr, checkExpr, hs.location]
    exact hs.self.lift.bind fun q q₀ _ => mirrors_pure rfl
  | null =>
    rw [Expr.erase, checkExpr, checkExpr]
    exact mirrors_pure rfl
  | literal host =>
    rw [Expr.erase, checkExpr, checkExpr]
    exact mirrors_pure rfl
  | var name =>
    rw [Expr.erase, checkExpr, checkExpr]
    exact (hs.var name).lift.bind fun v v₀ hv => mirrors_pure hv
  | fieldRead receiver name ih =>
    rw [Expr.annotations] at ha
    rw [Expr.erase, checkExpr, checkExpr]
    refine (ih ha).bind fun t t₀ ht => ?_
    rw [ht]
    exact (hts.field t₀.host name).lift.bind fun f f₀ hf => mirrors_pure hf
  | create owner text args ih =>
    rw [Expr.annotations, List.forall_mem_append] at ha
    rw [Expr.erase, checkExpr, checkExpr, Expr.length_eraseAll]
    unfold validate
    refine (hts.constructor owner args.length).lift.bind fun k k₀ _ => ?_
    refine (mirrors_resolve? ha.1).bind fun requested requested₀ _ => ?_
    refine mirrors_emitAll.bind fun _ _ _ => ?_
    refine (mirrors_checkArgs_of ih ha.2).bind fun qs qs₀ _ => ?_
    exact mirrors_emitAll.bind fun _ _ _ => mirrors_pure rfl
  | call receiver name args ihr ih =>
    rw [Expr.annotations, List.forall_mem_append] at ha
    rw [Expr.erase, checkExpr_call, checkExpr_call, Expr.length_eraseAll]
    refine (ihr ha.1).bind fun t t₀ ht => ?_
    refine (agree_className ht).lift.bind fun owner _ howner => ?_
    obtain rfl := howner
    refine (hts.method owner name args.length).lift.bind fun m m₀ hm => ?_
    refine (mirrors_checkArgs_of ih ha.2).bind fun qs qs₀ _ => ?_
    refine mirrors_emitAll.bind fun _ _ _ => mirrors_emitAll.bind fun _ _ _ => ?_
    rw [hm.returns]
    exact mirrors_pure rfl
  | staticCall owner name args ih =>
    rw [Expr.annotations] at ha
    rw [Expr.erase, checkExpr, checkExpr, Expr.length_eraseAll]
    unfold checkArguments
    refine (hts.method owner name args.length).lift.bind fun m m₀ hm => ?_
    refine (mirrors_checkArgs_of ih ha).bind fun qs qs₀ _ => ?_
    refine mirrors_emitAll.bind fun _ _ _ => ?_
    rw [hm.returns]
    exact mirrors_pure rfl
  | cast host text operand ih =>
    rw [Expr.annotations, List.forall_mem_append] at ha
    rw [Expr.erase, checkExpr, checkExpr]
    unfold validate
    refine (ih ha.2).bind fun t t₀ _ => ?_
    refine (mirrors_resolve? ha.1).bind fun explicit explicit₀ _ => ?_
    refine mirrors_emitAll.bind fun _ _ _ => ?_
    exact (agree_qualifierOf hπ hπ₀ _ _).lift.bind fun q q₀ _ => mirrors_pure rfl
  | binary host lhs rhs ihl ihr =>
    rw [Expr.annotations, List.forall_mem_append] at ha
    rw [Expr.erase, checkExpr, checkExpr]
    refine (ihl ha.1).bind fun l l₀ _ => (ihr ha.2).bind fun r r₀ _ => ?_
    exact (agree_qualifierOf hπ hπ₀ _ _).lift.bind fun q q₀ _ => mirrors_pure rfl

/-! ## Statements -/

omit hts in
theorem mirrors_assignVar (s s₀ : Scope) (declared declared₀ : Position)
    (value value₀ : Qualifier) :
    Mirrors U (fun _ _ => True) (assignVar ⟨π, ts⟩ s declared value)
      (assignVar ⟨π₀, ts₀⟩ s₀ declared₀ value₀) := by
  -- Either side may report something, and neither can fail: what the two do need not be compared.
  have hends : ∀ {ρ : Policy} {us : Tables} {t : Scope} {p : Position} {q : Qualifier},
      Stage.generic ∈ ρ.stages →
      ∃ a d, Yields (assignVar ⟨ρ, us⟩ t p q) a d ∧ d.shapes = [] := by
    intro ρ us t p q hρ
    obtain ⟨required, hreq⟩ := Policy.qualifierOf_total hρ p
    rw [assignVar_eq]
    cases p.isExplicit with
    | true =>
      exact ⟨required, _, yields_bind.2 ⟨required, _, _, yields_lift.2 ⟨hreq, rfl⟩,
        yields_bind.2 ⟨(), _, _, yields_emitAll.2 rfl, yields_pure.2 ⟨rfl, rfl⟩, rfl⟩, rfl⟩, rfl⟩
    | false =>
      exact ⟨_, _, yields_bind.2 ⟨required, _, _, yields_lift.2 ⟨hreq, rfl⟩,
        yields_pure.2 ⟨rfl, rfl⟩, rfl⟩, rfl⟩
  obtain ⟨a, d, ha, hd⟩ := hends hπ
  obtain ⟨b, d₀, hb, hd₀⟩ := hends hπ₀
  exact .value ha hb trivial (hd.trans hd₀.symm)

theorem mirrors_checkStmt {s s₀ : Scope} (hs : ScopeMirrors s s₀) {stmt : Stmt}
    (ha : ∀ t ∈ stmt.annotations, Accounted π U t) :
    Mirrors U ScopeMirrors (checkStmt ⟨π, ts⟩ s stmt) (checkStmt ⟨π₀, ts₀⟩ s₀ stmt.erase) := by
  cases stmt with
  | localVar name host text init =>
    rw [Stmt.annotations, List.forall_mem_append] at ha
    cases init with
    | none =>
      show Mirrors U _ (checkStmt _ s (.localVar name host text none))
        (checkStmt _ s₀ (.localVar name host none none))
      unfold checkStmt
      refine (mirrors_declare hπ hπ₀ _ _ _ _ ha.1).bind fun d d₀ hd => ?_
      exact mirrors_pure (hs.insert name hd)
    | some e =>
      rw [Option.toList_some, List.flatMap_singleton] at ha
      show Mirrors U _ (checkStmt _ s (.localVar name host text (some e)))
        (checkStmt _ s₀ (.localVar name host none (some e.erase)))
      unfold checkStmt
      refine (mirrors_declare hπ hπ₀ _ _ _ _ ha.1).bind fun d d₀ hd => ?_
      refine (mirrors_checkExpr hπ hπ₀ hts hs ha.2).bind fun t t₀ _ => ?_
      refine (mirrors_assignVar hπ hπ₀ _ _ _ _ _ _).bind fun q q₀ _ => ?_
      exact mirrors_pure (hs.insert name hd)
  | assign target e =>
    refine (hs.var target).lift.bind fun v v₀ hv => ?_
    refine (mirrors_checkExpr hπ hπ₀ hts hs ha).bind fun t t₀ _ => ?_
    refine (mirrors_assignVar hπ hπ₀ _ _ _ _ _ _).bind fun q q₀ _ => ?_
    exact mirrors_pure (hs.insert target hv)
  | fieldWrite receiver name e =>
    rw [Stmt.annotations, List.forall_mem_append] at ha
    refine (mirrors_checkExpr hπ hπ₀ hts hs ha.1).bind fun t t₀ ht => ?_
    rw [ht]
    refine (hts.field t₀.host name).lift.bind fun f f₀ _ => ?_
    refine (mirrors_checkExpr hπ hπ₀ hts hs ha.2).bind fun value value₀ _ => ?_
    refine mirrors_emitAll.bind fun _ _ _ => mirrors_pure ?_
    split <;> split <;> exact ⟨hs.location, hs.receiver, hs.vars⟩
  | eval e =>
    exact (mirrors_checkExpr hπ hπ₀ hts hs ha).bind fun t t₀ _ => mirrors_pure hs
  | exit value =>
    cases value with
    | none => exact mirrors_pure hs
    | some e =>
      rw [Stmt.annotations, Option.toList_some, List.flatMap_singleton] at ha
      show Mirrors U _ (checkStmt _ s (.exit (some e))) (checkStmt _ s₀ (.exit (some e.erase)))
      rw [checkStmt_exit_some, checkStmt_exit_some]
      refine (mirrors_checkExpr hπ hπ₀ hts hs ha).bind fun t t₀ _ => ?_
      exact mirrors_emitAll.bind fun _ _ _ => mirrors_pure hs

theorem mirrors_checkBody {s s₀ : Scope} (hs : ScopeMirrors s s₀) {body : List Stmt}
    (ha : ∀ t ∈ body.flatMap Stmt.annotations, Accounted π U t) :
    Mirrors U ScopeMirrors (checkBody ⟨π, ts⟩ s body)
      (checkBody ⟨π₀, ts₀⟩ s₀ (body.map Stmt.erase)) := by
  induction body generalizing s s₀ with
  | nil => exact mirrors_pure hs
  | cons stmt rest ih =>
    rw [List.flatMap_cons, List.forall_mem_append] at ha
    exact (mirrors_checkStmt hπ hπ₀ hts hs ha.1).bind fun s s₀ hs => ih hs ha.2

/-! ## Members and classes -/

omit hπ hπ₀ hts in
theorem mapsMirror_bindParams {rs rs₀ : List ResolvedParam} (h : List.Forall₂ ParamMirrors rs rs₀) :
    MapsMirror (fun v v₀ : Var => v.declared.host = v₀.declared.host) (bindParams rs)
      (bindParams rs₀) := by
  have hfold : ∀ {m m₀ : OrderedMap String Var},
      MapsMirror (fun v v₀ : Var => v.declared.host = v₀.declared.host) m m₀ →
      MapsMirror (fun v v₀ : Var => v.declared.host = v₀.declared.host)
        ((rs.map fun r => (r.name, Var.mk r.declared.position r.declared.qualifier)).foldl
          (fun m e => m.insert e.1 e.2) m)
        ((rs₀.map fun r => (r.name, Var.mk r.declared.position r.declared.qualifier)).foldl
          (fun m e => m.insert e.1 e.2) m₀) := by
    induction h with
    | nil => exact fun hm => hm
    | @cons r r₀ rs rs₀ hr _ ih =>
      intro m m₀ hm
      rw [List.map_cons, List.map_cons, List.foldl_cons, List.foldl_cons, hr.name]
      exact ih (hm.insert r₀.name hr.host)
  exact hfold .empty

theorem mirrors_checkConstructors (c : ClassDecl) (index : Nat) {ks : List ConstructorDecl}
    (ha : ∀ t ∈ ks.flatMap ConstructorDecl.annotations, Accounted π U t) :
    Mirrors U (fun _ _ => True) (checkConstructors ⟨π, ts⟩ c index ks)
      (checkConstructors ⟨π₀, ts₀⟩ c.erase index (ks.map ConstructorDecl.erase)) := by
  induction ks generalizing index with
  | nil => exact mirrors_pure trivial
  | cons k rest ih =>
    rw [List.flatMap_cons, List.forall_mem_append] at ha
    have hk : Mirrors U (fun _ _ => True) (checkConstructor ⟨π, ts⟩ c index k)
        (checkConstructor ⟨π₀, ts₀⟩ c.erase index k.erase) := by
      obtain ⟨-, -, hbody⟩ := ConstructorDecl.forall_annotations.1 ha.1
      rw [checkConstructor_eq, checkConstructor_eq]
      refine (hts.table c.name).lift.bind fun t t₀ ht => ?_
      refine (ht.constructorAt c.name index).lift.bind fun r r₀ hr => ?_
      refine mirrors_emitAll.bind fun _ _ _ => ?_
      refine (mirrors_checkBody hπ hπ₀ hts ?_ hbody).bind fun s s₀ _ => mirrors_pure trivial
      exact ⟨rfl, rfl, mapsMirror_bindParams hr⟩
    unfold checkConstructors
    refine hk.bind fun summary summary₀ _ => ?_
    have hrecord : Mirrors U (fun _ _ => True) (recordSummary summary) (recordSummary summary₀) :=
      .value (a := ()) (b := ()) rfl rfl trivial rfl
    refine hrecord.bind fun _ _ _ => ?_
    exact (ih (index + 1) ha.2).bind fun _ _ _ => mirrors_pure trivial

theorem mirrors_checkMethods (c : ClassDecl) (index : Nat) {ms : List MethodDecl}
    (ha : ∀ t ∈ ms.flatMap MethodDecl.annotations, Accounted π U t) :
    Mirrors U (fun _ _ => True) (checkMethods ⟨π, ts⟩ c index ms)
      (checkMethods ⟨π₀, ts₀⟩ c.erase index (ms.map MethodDecl.erase)) := by
  induction ms generalizing index with
  | nil => exact mirrors_pure trivial
  | cons m rest ih =>
    rw [List.flatMap_cons, List.forall_mem_append] at ha
    have hm : Mirrors U (fun _ _ => True) (checkMethod ⟨π, ts⟩ c index m)
        (checkMethod ⟨π₀, ts₀⟩ c.erase index m.erase) := by
      obtain ⟨-, -, -, hbody⟩ := MethodDecl.forall_annotations.1 ha.1
      rw [checkMethod_eq, checkMethod_eq]
      refine (hts.table c.name).lift.bind fun t t₀ ht => ?_
      refine (ht.methodAt c.name index).lift.bind fun r r₀ hr => ?_
      refine (mirrors_checkBody hπ hπ₀ hts ?_ hbody).bind fun s s₀ _ => mirrors_pure trivial
      exact ⟨rfl, hr.receiver, mapsMirror_bindParams hr.params⟩
    unfold checkMethods
    exact hm.bind fun _ _ _ => ih (index + 1) ha.2

theorem mirrors_checkClasses {cs : List ClassDecl}
    (ha : ∀ t ∈ cs.flatMap ClassDecl.annotations, Accounted π U t) :
    Mirrors U (fun _ _ => True) (checkClasses ⟨π, ts⟩ cs)
      (checkClasses ⟨π₀, ts₀⟩ (cs.map ClassDecl.erase)) := by
  induction cs with
  | nil => exact mirrors_pure trivial
  | cons c rest ih =>
    rw [List.flatMap_cons, List.forall_mem_append] at ha
    have hc : Mirrors U (fun _ _ => True) (checkClass ⟨π, ts⟩ c)
        (checkClass ⟨π₀, ts₀⟩ c.erase) := by
      obtain ⟨-, hconstructors, hmethods⟩ := ClassDecl.forall_annotations.1 ha.1
      rw [checkClass_eq, checkClass_eq]
      refine (mirrors_checkConstructors hπ hπ₀ hts c 0 hconstructors).bind fun os os₀ _ => ?_
      have hrecord : ∀ {name : String} {o o₀ : Option ObjectState},
          Mirrors U (fun _ _ => True) (recordObject? name o) (recordObject? name o₀) := by
        intro name o o₀
        cases o <;> cases o₀ <;> exact .value (a := ()) (b := ()) rfl rfl trivial rfl
      refine hrecord.bind fun _ _ _ => ?_
      exact mirrors_checkMethods hπ hπ₀ hts c 0 hmethods
    unfold checkClasses
    exact hc.bind fun _ _ _ => ih ha.2

end

/-- The run on a program goes as the run on its erasure, or ends with the fault of an annotation of
the program. -/
theorem mirrors_checkProgram {π π₀ : Policy} (hπ : Stage.generic ∈ π.stages)
    (hπ₀ : Stage.generic ∈ π₀.stages) (p : Program) :
    Mirrors (fun name => ∃ text ∈ p.annotations, π.resolve text = .error (.unknownQualifier name))
      (fun _ _ => True) (checkProgram π p) (checkProgram π₀ p.erase) := by
  -- Both passes read the annotations of the program only, so it accounts for all that they meet.
  have ha : ∀ t ∈ p.annotations, Accounted π (fun name =>
      ∃ text ∈ p.annotations, π.resolve text = .error (.unknownQualifier name)) t :=
    fun t ht _ hname => ⟨t, ht, hname⟩
  exact (mirrors_resolveClasses hπ hπ₀ .empty ha).bind fun _ _ hts =>
    mirrors_checkClasses hπ hπ₀ hts ha

end Checker

/-! ## Programs -/

open Checker

/-- A run in which every annotation that is consulted is known: it does not end with the fault of an
annotation that is not. -/
def Program.AnnotationsKnown (π : Policy) (p : Program) : Prop :=
  ∀ text ∈ p.annotations, ∀ f, π.resolve text = .error f → p.check π ≠ .error f

/-- The erased program comes to the same fault, or to the same kinds and types of positions. -/
theorem Program.check_erase {π π₀ : Policy} (hπ : Stage.generic ∈ π.stages)
    (hπ₀ : Stage.generic ∈ π₀.stages) {p : Program} (hp : p.AnnotationsKnown π) :
    (p.check π).map Report.shapes = (p.erase.check π₀).map Report.shapes := by
  rcases mirrors_checkProgram hπ hπ₀ p with
    ⟨⟨text, htext, hresolve⟩, hf⟩ | ⟨-, hf, hf₀⟩ | ⟨hr, hr₀, -, hshapes⟩
  · exact absurd (Program.check_eq_error.2 hf) (hp text htext _ hresolve)
  · rw [Program.check_eq_error.2 hf, Program.check_eq_error.2 hf₀]
  · rw [Program.check_eq_ok.2 hr, Program.check_eq_ok.2 hr₀]
    exact congrArg Except.ok hshapes

/-- Two programs that are equal but for their annotations are checked to the same end, under any two
policies with the generic stage, as long as the annotations that are consulted are known: both or
neither end with a report, the faults are the same, and the reports have positions of the same kinds
and types in the same order. -/
theorem outcome_independent_of_annotations (π₁ π₂ : Policy) (p₁ p₂ : Program)
    (h₁ : Stage.generic ∈ π₁.stages) (h₂ : Stage.generic ∈ π₂.stages)
    (herase : p₁.erase = p₂.erase) (hknown₁ : p₁.AnnotationsKnown π₁)
    (hknown₂ : p₂.AnnotationsKnown π₂) :
    ((∃ r₁, p₁.check π₁ = .ok r₁) ↔ ∃ r₂, p₂.check π₂ = .ok r₂) ∧
      (∀ f, p₁.check π₁ = .error f ↔ p₂.check π₂ = .error f) ∧
      ∀ r₁ r₂, p₁.check π₁ = .ok r₁ → p₂.check π₂ = .ok r₂ →
        r₁.positions.map (fun x => (x.kind, x.host)) =
          r₂.positions.map fun x => (x.kind, x.host) := by
  have hsame : (p₁.check π₁).map Report.shapes = (p₂.check π₂).map Report.shapes := by
    rw [Program.check_erase h₁ h₁ hknown₁, herase, Program.check_erase h₂ h₁ hknown₂]
  cases hc₁ : p₁.check π₁ with
  | error f₁ =>
    cases hc₂ : p₂.check π₂ with
    | error f₂ =>
      rw [hc₁, hc₂] at hsame
      obtain rfl := Except.error.inj hsame
      simp
    | ok r₂ => rw [hc₁, hc₂] at hsame; cases hsame
  | ok r₁ =>
    cases hc₂ : p₂.check π₂ with
    | error f₂ => rw [hc₁, hc₂] at hsame; cases hsame
    | ok r₂ =>
      rw [hc₁, hc₂] at hsame
      have hshapes : r₁.shapes = r₂.shapes := Except.ok.inj hsame
      refine ⟨⟨fun _ => ⟨r₂, rfl⟩, fun _ => ⟨r₁, rfl⟩⟩, by simp, ?_⟩
      intro r r' hr hr'
      obtain rfl := Except.ok.inj hr
      obtain rfl := Except.ok.inj hr'
      exact hshapes

/-- The policy that gives every position without an annotation the same qualifier. -/
def uniformPolicy : Policy :=
  ⟨{ Configuration.standard with defaultQualifier := .readonly }, [.generic]⟩

/-- A class with a constructor that makes another object of the class, and a second class without
constructors, which may have the same name. Every annotation is `text`. -/
def pairProgram (second : String) (text : Option String) : Program where
  classes := [
    { name := "List"
      fields := [⟨"tail", .declared "List", text, false, false, false⟩]
      constructors := [
        ⟨text, [], []⟩,
        ⟨text, [⟨"n", .declared "List", text⟩], [
          .localVar "l" (.declared "List") text (some (.create "List" text [])),
          .fieldWrite .self "tail" (.cast (.declared "List") text (.var "n"))]⟩]
      methods := [] },
    { name := second, fields := [], constructors := [], methods := [] }]

/-- With a repeated name neither run gets past the first constructor, and with names that differ
both find the same positions, although the two policies agree on few qualifiers and one of the
programs has no annotation. -/
theorem outcome_independent_of_annotations_pairProgram :
    ((pairProgram "List" (some "@Mutable")).check default = .error (.staleMember "List" 0) ↔
      (pairProgram "List" none).check uniformPolicy = .error (.staleMember "List" 0)) ∧
    ∃ r₁ r₂, (pairProgram "Other" (some "@Mutable")).check default = .ok r₁ ∧
      (pairProgram "Other" none).check uniformPolicy = .ok r₂ ∧
      r₁.positions.map (fun x => (x.kind, x.host)) =
        r₂.positions.map fun x => (x.kind, x.host) := by
  have hknown : ∀ {π : Policy} {p : Program},
      (∀ text ∈ p.annotations, (π.resolve text).isOk = true) → p.AnnotationsKnown π := by
    intro π p h text ht f hf
    have hok := h text ht
    rw [hf] at hok
    cases hok
  have hok : ∀ {π : Policy} {p : Program}, (p.check π).isOk = true → ∃ r, p.check π = .ok r := by
    intro π p h
    cases hc : p.check π with
    | error f => rw [hc] at h; cases h
    | ok r => exact ⟨r, rfl⟩
  obtain ⟨r₁, hr₁⟩ : ∃ r, (pairProgram "Other" (some "@Mutable")).check default = .ok r :=
    hok (by decide +kernel)
  obtain ⟨r₂, hr₂⟩ : ∃ r, (pairProgram "Other" none).check uniformPolicy = .ok r :=
    hok (by decide +kernel)
  refine ⟨?_, r₁, r₂, hr₁, hr₂, ?_⟩
  · exact (outcome_independent_of_annotations default uniformPolicy
      (pairProgram "List" (some "@Mutable")) (pairProgram "List" none) (by decide) (by decide) rfl
      (hknown (by decide +kernel)) (hknown (by decide +kernel))).2.1 _
  · exact (outcome_independent_of_annotations default uniformPolicy
      (pairProgram "Other" (some "@Mutable")) (pairProgram "Other" none) (by decide) (by decide) rfl
      (hknown (by decide +kernel)) (hknown (by decide +kernel))).2.2 r₁ r₂ hr₁ hr₂

end Mutability
