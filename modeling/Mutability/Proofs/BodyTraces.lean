import Mutability.Proofs.DeclaredPositions
import Mutability.Proofs.Locality

/-!
# The annotations in bodies

The slots of a body are its local declarations and, at any depth of its expressions, every object
creation and every cast; `Expr.slots` and `Stmt.slots` list them as the second pass comes to them.
Each of them is judged, once and whatever the types of the expressions around it are, and only
local declarations are recorded (`traces_checkBody`).

A body adds diagnostics and positions and nothing else. What the second pass adds for a class is
therefore made of what each constructor adds, followed by its summary, then the state of a new
object, then what each method adds (`exists_parts_checkClass`).
-/

namespace Mutability

mutual

/-- The slots of an expression. The annotation of an object creation comes before its arguments,
that of a cast after its operand. -/
def Expr.slots : Expr → List Slot
  | .self | .null | .literal _ | .var _ => []
  | .fieldRead receiver _ => receiver.slots
  | .create className text args =>
    ⟨.newObject, .declared className, text⟩ :: Expr.slotsAll args
  | .call receiver _ args => receiver.slots ++ Expr.slotsAll args
  | .staticCall _ _ args => Expr.slotsAll args
  | .cast host text operand => operand.slots ++ [⟨.cast, host, text⟩]
  | .binary _ lhs rhs => lhs.slots ++ rhs.slots

def Expr.slotsAll : List Expr → List Slot
  | [] => []
  | e :: rest => e.slots ++ Expr.slotsAll rest

end

/-- The slots of a statement. -/
def Stmt.slots : Stmt → List Slot
  | .localVar _ host text none => [⟨.localVariable, host, text⟩]
  | .localVar _ host text (some e) => ⟨.localVariable, host, text⟩ :: e.slots
  | .assign _ value => value.slots
  | .fieldWrite receiver _ value => receiver.slots ++ value.slots
  | .eval e => e.slots
  | .exit none => []
  | .exit (some e) => e.slots

/-- The slot of a local declaration; any other statement declares nothing. -/
def Stmt.localSlots : Stmt → List Slot
  | .localVar _ host text _ => [⟨.localVariable, host, text⟩]
  | .assign _ _ | .fieldWrite _ _ _ | .eval _ | .exit _ => []

namespace Checker

/-! ## Diagnostics about other things -/

theorem kind_of_mem_misfit {kind : Diagnostic.Kind} {found : Qualifier}
    {required : Option Qualifier} {x : Diagnostic} (h : x ∈ misfit kind found required) :
    x.kind = kind := by
  cases required with
  | none => cases h
  | some q =>
    dsimp only [misfit] at h
    split at h
    · cases h
    · rw [List.mem_singleton.1 h]
      rfl

theorem kind_of_mem_arguments {adapted : Qualifier → Qualifier} {index : Nat}
    {args params : List Qualifier} {x : Diagnostic}
    (h : x ∈ Construction.argumentDiagnostics adapted index args params) :
    x.kind = .argumentTypeIncompatible := by
  induction args generalizing index params with
  | nil => cases h
  | cons a args ih =>
    cases params with
    | nil => cases h
    | cons p params =>
      rcases List.mem_append.1 h with h | h
      · split at h
        · cases h
        · rw [List.mem_singleton.1 h]
          rfl
      · exact ih h

theorem not_aboutAnnotation_of_mem_misfit {kind : Diagnostic.Kind} {found : Qualifier}
    {required : Option Qualifier} (h₁ : kind ≠ .typeInvalid) (h₂ : kind ≠ .invalidCastQualifier) :
    ∀ x ∈ misfit kind found required, ¬ x.AboutAnnotation := by
  intro x hx
  obtain rfl := kind_of_mem_misfit hx
  rintro (h | h)
  · exact h₁ h
  · exact h₂ h

theorem not_aboutAnnotation_of_mem_arguments {adapted : Qualifier → Qualifier} {index : Nat}
    {args params : List Qualifier} :
    ∀ x ∈ Construction.argumentDiagnostics adapted index args params, ¬ x.AboutAnnotation := by
  intro x hx
  have hkind := kind_of_mem_arguments hx
  rintro (h | h) <;> cases hkind.symm.trans h

theorem not_aboutAnnotation_of_mem_invocation {declared : Qualifier} {requested : Option Qualifier}
    {args params : List Qualifier} :
    ∀ x ∈ Construction.invocationDiagnostics declared requested args params,
      ¬ x.AboutAnnotation := by
  intro x hx
  rcases List.mem_append.1 hx with hx | hx
  · rcases List.mem_append.1 hx with hx | hx
    all_goals
      split at hx
      · obtain rfl := List.mem_singleton.1 hx
        rintro (h | h) <;> cases h
      · cases hx
  · exact not_aboutAnnotation_of_mem_arguments x hx

theorem not_aboutAnnotation_of_mem_declaration {ret : Qualifier} {params : List Qualifier} :
    ∀ x ∈ Construction.declarationDiagnostics ret params, ¬ x.AboutAnnotation := by
  intro x hx
  rcases List.mem_append.1 hx with hx | hx
  · split at hx
    · cases hx
    · obtain rfl := List.mem_singleton.1 hx
      rintro (h | h) <;> cases h
  · split at hx
    · split at hx
      · obtain rfl := List.mem_singleton.1 hx
        rintro (h | h) <;> cases h
      · cases hx
    · cases hx

theorem not_aboutAnnotation_of_mem_write {f : Field} {receiver value : Qualifier}
    {inConstructor : Bool} :
    ∀ x ∈ f.writeDiagnostics receiver inConstructor value, ¬ x.AboutAnnotation := by
  intro x hx
  rcases List.mem_append.1 hx with hx | hx
  all_goals
    split at hx
    · cases hx
    · obtain rfl := List.mem_singleton.1 hx
      rintro (h | h) <;> cases h

/-! ## Expressions -/

/-- An annotation is resolved and judged before the rest of a computation. -/
theorem traces_judge {β : Type} {π : Policy} {l : Location} {kind : Position.Kind}
    {host : HostType} {text : Option String} {sites : List Site} {slots : List Slot}
    {k : Option Qualifier → Check β} [∀ a, Additive (k a)]
    (hk : ∀ explicit, Traces π sites slots (k explicit)) :
    Traces π (⟨l, ⟨kind, host, text⟩⟩ :: sites) slots (do
      let explicit ← (liftM (π.resolve? text) : Check (Option Qualifier))
      emitAll l (π.illegality? (.written kind host explicit)).toList
      k explicit) := by
  intro b d h
  obtain ⟨explicit, d₁, d₂, h₁, h₂, rfl⟩ := yields_bind.1 h
  obtain ⟨hexp, rfl⟩ := yields_lift.1 h₁
  obtain ⟨u, d₃, d₄, h₃, h₄, rfl⟩ := yields_bind.1 h₂
  rw [Report.empty_append, yields_emitAll.1 h₃]
  have hjudged : Traced π [⟨l, ⟨kind, host, text⟩⟩] [] _ := .judged hexp
  exact hjudged.append (hk explicit b d₄ h₄)

section

variable {env : Env}

theorem traces_checkArgs_of {s : Scope} {args : List Expr}
    (h : ∀ a ∈ args, Traces env.policy (a.slots.map (.mk s.location)) [] (checkExpr env s a)) :
    Traces env.policy ((Expr.slotsAll args).map (.mk s.location)) [] (checkArgs env s args) := by
  induction args with
  | nil =>
    rw [checkArgs, Expr.slotsAll]
    exact traces_pure []
  | cons e rest ih =>
    have hrest := ih fun a ha => h a (List.mem_cons_of_mem e ha)
    rw [checkArgs, Expr.slotsAll, List.map_append]
    refine (h e List.mem_cons_self).bind fun t => ?_
    exact hrest.andThen fun qs => traces_pure _

theorem traces_checkExpr (s : Scope) (e : Expr) :
    Traces env.policy (e.slots.map (.mk s.location)) [] (checkExpr env s e) := by
  induction e using Expr.inductionOn with
  | self =>
    rw [checkExpr, Expr.slots]
    exact (traces_lift _).andThen fun q => traces_pure _
  | null =>
    rw [checkExpr, Expr.slots]
    exact traces_pure _
  | literal host =>
    rw [checkExpr, Expr.slots]
    exact traces_pure _
  | var name =>
    rw [checkExpr, Expr.slots]
    exact (traces_lift _).andThen fun v => traces_pure _
  | fieldRead receiver name ih =>
    rw [checkExpr, Expr.slots]
    exact ih.andThen fun t => (traces_lift _).andThen fun f => traces_pure _
  | create className text args ih =>
    rw [checkExpr, Expr.slots, List.map_cons]
    unfold validate
    refine (traces_lift _).bind fun k => traces_judge fun requested => ?_
    refine (traces_checkArgs_of ih).andThen fun qs => ?_
    exact (traces_emitAll not_aboutAnnotation_of_mem_invocation).andThen fun _ => traces_pure _
  | call receiver name args ihr ih =>
    rw [checkExpr_call, Expr.slots, List.map_append]
    refine ihr.bind fun t => (traces_lift _).bind fun owner => (traces_lift _).bind fun m => ?_
    refine (traces_checkArgs_of ih).andThen fun qs => ?_
    have hreceiver : Traces env.policy [] [] (emitAll s.location
        (misfit .methodInvocationInvalid t.qualifier
          (m.signature.seenFrom (some t.qualifier)).receiver)) :=
      traces_emitAll (not_aboutAnnotation_of_mem_misfit (by decide) (by decide))
    refine hreceiver.andThen fun _ => ?_
    exact (traces_emitAll not_aboutAnnotation_of_mem_arguments).andThen fun _ => traces_pure _
  | staticCall className name args ih =>
    rw [checkExpr, Expr.slots]
    unfold checkArguments
    refine (traces_lift _).bind fun m => (traces_checkArgs_of ih).andThen fun qs => ?_
    exact (traces_emitAll not_aboutAnnotation_of_mem_arguments).andThen fun _ => traces_pure _
  | cast host text operand ih =>
    rw [checkExpr, Expr.slots, List.map_append]
    unfold validate
    refine ih.bind fun t => traces_judge fun explicit => ?_
    exact (traces_lift _).andThen fun q => traces_pure _
  | binary host lhs rhs ihl ihr =>
    rw [checkExpr, Expr.slots, List.map_append]
    refine ihl.bind fun l => ihr.andThen fun r => ?_
    exact (traces_lift _).andThen fun q => traces_pure _

/-! ## Statements -/

theorem traces_assignVar (s : Scope) (declared : Position) (value : Qualifier) :
    Traces env.policy [] [] (assignVar env s declared value) := by
  rw [assignVar_eq]
  refine (traces_lift _).bind fun required => ?_
  split
  · exact (traces_emitAll (not_aboutAnnotation_of_mem_misfit (by decide) (by decide))).andThen
      fun _ => traces_pure _
  · exact traces_pure _

theorem traces_checkStmt (s : Scope) (stmt : Stmt) :
    Traces env.policy (stmt.slots.map (.mk s.location)) stmt.localSlots
      (checkStmt env s stmt) := by
  cases stmt with
  | localVar name host text init =>
    cases init with
    | none =>
      unfold checkStmt
      exact (traces_declare _ _ host text).andThen fun d => traces_pure _
    | some e =>
      unfold checkStmt
      refine (traces_declare _ _ host text).bind fun d => (traces_checkExpr s e).andThen fun t => ?_
      exact (traces_assignVar s _ _).andThen fun q => traces_pure _
  | assign target e =>
    unfold checkStmt
    refine (traces_lift _).bind fun v => (traces_checkExpr s e).andThen fun t => ?_
    exact (traces_assignVar s _ _).andThen fun q => traces_pure _
  | fieldWrite receiver name e =>
    unfold checkStmt Stmt.slots
    rw [List.map_append]
    refine (traces_checkExpr s receiver).bind fun t => (traces_lift _).bind fun f => ?_
    refine (traces_checkExpr s e).andThen fun value => ?_
    exact (traces_emitAll not_aboutAnnotation_of_mem_write).andThen fun _ => traces_pure _
  | eval e =>
    unfold checkStmt
    exact (traces_checkExpr s e).andThen fun t => traces_pure _
  | exit value =>
    cases value with
    | none => exact traces_pure s
    | some e =>
      rw [checkStmt_exit_some]
      refine (traces_checkExpr s e).andThen fun t => ?_
      exact (traces_emitAll (not_aboutAnnotation_of_mem_misfit (by decide) (by decide))).andThen
        fun _ => traces_pure _

theorem traces_checkBody (s : Scope) (body : List Stmt) :
    Traces env.policy ((body.flatMap Stmt.slots).map (.mk s.location))
      (body.flatMap Stmt.localSlots) (checkBody env s body) := by
  induction body generalizing s with
  | nil => exact traces_pure s
  | cons stmt rest ih =>
    unfold checkBody
    rw [List.flatMap_cons, List.flatMap_cons, List.map_append]
    refine (traces_checkStmt s stmt).bind_of_yields fun next d hnext => ?_
    -- A statement does not leave the member it stands in.
    have hlocation := (sameMember_of_checkStmt hnext.within).location
    have hrest := ih next
    rwa [hlocation] at hrest

end

end Checker

/-! ## Members -/

namespace ClassDecl

variable (c : ClassDecl)

/-- The sites in the body of a constructor, by its number. -/
def constructorBodySites (x : ConstructorDecl × Nat) : List Site :=
  (x.1.body.flatMap Stmt.slots).map (.mk (Checker.constructorLocation c x.2))

def methodBodySites (m : MethodDecl) : List Site :=
  (m.body.flatMap Stmt.slots).map (.mk (c.methodLocation m))

/-- The sites in the bodies of a class. -/
def bodySites : List Site :=
  c.constructors.zipIdx.flatMap c.constructorBodySites ++ c.methods.flatMap c.methodBodySites

/-- The slots of the local declarations of a class. -/
def localSlots : List Slot :=
  c.constructors.flatMap (fun k => k.body.flatMap Stmt.localSlots) ++
    c.methods.flatMap fun m => m.body.flatMap Stmt.localSlots

end ClassDecl

namespace Report

/-- The report with one constructor, and nothing else. -/
def ofSummary (summary : ConstructorSummary) : Report :=
  ⟨[], [], [summary], ∅⟩

/-- The report with the state of a new object of a class, if there is one, and nothing else. -/
def ofObject? (className : String) : Option ObjectState → Report
  | some object => ⟨[], [], [], (∅ : OrderedMap String ObjectState).insert className object⟩
  | none => ∅

end Report

namespace Checker

variable {env : Env}

theorem traces_checkConstructor (c : ClassDecl) (index : Nat) (k : ConstructorDecl) :
    Traces env.policy (c.constructorBodySites (k, index)) (k.body.flatMap Stmt.localSlots)
      (checkConstructor env c index k) := by
  rw [checkConstructor_eq]
  refine (traces_lift _).bind fun table => (traces_lift _).bind fun resolved => ?_
  refine (traces_emitAll not_aboutAnnotation_of_mem_declaration).bind fun _ => ?_
  exact (traces_checkBody _ k.body).andThen fun s => traces_pure _

theorem traces_checkMethod (c : ClassDecl) (index : Nat) (m : MethodDecl) :
    Traces env.policy (c.methodBodySites m) (m.body.flatMap Stmt.localSlots)
      (checkMethod env c index m) := by
  rw [checkMethod_eq]
  refine (traces_lift _).bind fun table => (traces_lift _).bind fun resolved => ?_
  exact (traces_checkBody _ m.body).andThen fun s => traces_pure _

theorem yields_recordSummary {summary : ConstructorSummary} {u : Unit} {d : Report} :
    Yields (recordSummary summary) u d ↔ d = .ofSummary summary := by
  show Except.ok ((), Report.ofSummary summary) = .ok (u, d) ↔ _
  simp [eq_comm]

theorem yields_recordObject? {name : String} {object : Option ObjectState} {u : Unit}
    {d : Report} : Yields (recordObject? name object) u d ↔ d = .ofObject? name object := by
  cases object with
  | none => exact yields_pure.trans ⟨fun h => h.2, fun h => ⟨rfl, h⟩⟩
  | some o =>
    show Except.ok ((), Report.ofObject? name (some o)) = .ok (u, d) ↔ _
    simp [eq_comm]

/-- What the constructors of a class add, with the summary of each behind what it adds. -/
theorem exists_concat_checkConstructors {c : ClassDecl} {index : Nat} {ks : List ConstructorDecl}
    {objects : List ObjectState} {d : Report}
    (h : Yields (checkConstructors env c index ks) objects d) :
    ∃ runs : List (ConstructorSummary × Report),
      List.Forall₂ (fun x run => Yields (checkConstructor env c x.2 x.1) run.1 run.2)
        (ks.zipIdx index) runs ∧
      objects = runs.map (fun run => run.1.object) ∧
      d = Report.concat (runs.map fun run => run.2 ++ .ofSummary run.1) := by
  induction ks generalizing index objects d with
  | nil =>
    obtain ⟨rfl, rfl⟩ := yields_pure.1 h
    exact ⟨[], .nil, rfl, rfl⟩
  | cons k rest ih =>
    unfold checkConstructors at h
    obtain ⟨summary, d₁, d₂, h₁, h₂, rfl⟩ := yields_bind.1 h
    obtain ⟨u, d₃, d₄, h₃, h₄, rfl⟩ := yields_bind.1 h₂
    obtain ⟨objects', d₅, d₆, h₅, h₆, rfl⟩ := yields_bind.1 h₄
    obtain ⟨rfl, rfl⟩ := yields_pure.1 h₆
    obtain rfl := yields_recordSummary.1 h₃
    obtain ⟨runs, hruns, rfl, rfl⟩ := ih h₅
    refine ⟨(summary, d₁) :: runs, ?_, rfl, ?_⟩
    · rw [List.zipIdx_cons]
      exact .cons h₁ hruns
    · rw [Report.append_empty, ← Report.append_assoc]
      rfl

theorem exists_concat_checkMethods {c : ClassDecl} {index : Nat} {ms : List MethodDecl}
    {d : Report} (h : Yields (checkMethods env c index ms) () d) :
    ∃ ds, List.Forall₂ (fun m e => ∃ i, Yields (checkMethod env c i m) () e) ms ds ∧
      d = Report.concat ds := by
  induction ms generalizing index d with
  | nil => exact ⟨[], .nil, (yields_pure.1 h).2⟩
  | cons m rest ih =>
    unfold checkMethods at h
    obtain ⟨u, d₁, d₂, h₁, h₂, rfl⟩ := yields_bind.1 h
    obtain ⟨ds, hds, rfl⟩ := ih h₂
    exact ⟨d₁ :: ds, .cons ⟨index, h₁⟩ hds, rfl⟩

/-- What the second pass adds for a class. -/
theorem exists_parts_checkClass {c : ClassDecl} {d : Report}
    (h : Yields (checkClass env c) () d) :
    ∃ (runs : List (ConstructorSummary × Report)) (ds : List Report),
      List.Forall₂ (fun x run => Yields (checkConstructor env c x.2 x.1) run.1 run.2)
        c.constructors.zipIdx runs ∧
      List.Forall₂ (fun m e => ∃ i, Yields (checkMethod env c i m) () e) c.methods ds ∧
      d = Report.concat (runs.map fun run => run.2 ++ .ofSummary run.1) ++
        (.ofObject? c.name (ObjectState.joinAll? (runs.map fun run => run.1.object)) ++
          Report.concat ds) := by
  rw [checkClass_eq] at h
  obtain ⟨objects, d₁, d₂, h₁, h₂, rfl⟩ := yields_bind.1 h
  obtain ⟨u, d₃, d₄, h₃, h₄, rfl⟩ := yields_bind.1 h₂
  obtain ⟨runs, hruns, rfl, rfl⟩ := exists_concat_checkConstructors h₁
  obtain ⟨ds, hds, rfl⟩ := exists_concat_checkMethods h₄
  obtain rfl := yields_recordObject?.1 h₃
  exact ⟨runs, ds, hruns, hds, rfl⟩

end Checker

/-! ## Summaries and objects -/

/-- The report says nothing about constructors and new objects. -/
structure Report.OfBodies (d : Report) : Prop where
  constructors : d.constructors = []
  objects : d.objects = ∅

theorem Report.OfBodies.append {r d : Report} (hr : r.OfBodies) (hd : d.OfBodies) :
    (r ++ d).OfBodies where
  constructors := by rw [append_constructors, hr.constructors, hd.constructors]; rfl
  objects := by rw [append_objects, hr.objects, hd.objects]; rfl

theorem Report.ofBodies_concat {ds : List Report} (h : ∀ d ∈ ds, d.OfBodies) :
    (concat ds).OfBodies := by
  induction ds with
  | nil => exact ⟨rfl, rfl⟩
  | cons d rest ih =>
    have hrest := ih fun e he => h e (List.mem_cons_of_mem d he)
    exact (h d List.mem_cons_self).append hrest

namespace Checker

theorem Traced.ofBodies {π : Policy} {sites : List Site} {slots : List Slot} {d : Report}
    (h : Traced π sites slots d) : d.OfBodies := by
  induction h with
  | nothing => exact ⟨rfl, rfl⟩
  | append _ _ ih ih' => exact ih.append ih'
  | remarks => exact ⟨rfl, rfl⟩
  | judged => exact ⟨rfl, rfl⟩
  | recorded => exact ⟨rfl, rfl⟩

variable {env : Env}

theorem constructors_of_runs {c : ClassDecl} {xs : List (ConstructorDecl × Nat)}
    {runs : List (ConstructorSummary × Report)}
    (h : List.Forall₂ (fun x run => Yields (checkConstructor env c x.2 x.1) run.1 run.2) xs runs) :
    (Report.concat (runs.map fun run => run.2 ++ .ofSummary run.1)).constructors =
        runs.map Prod.fst ∧
      (Report.concat (runs.map fun run => run.2 ++ .ofSummary run.1)).objects = ∅ := by
  induction h with
  | nil => exact ⟨rfl, rfl⟩
  | @cons x run xs runs hrun hruns ih =>
    have hbody := (traces_checkConstructor c x.2 x.1 run.1 run.2 hrun).ofBodies
    constructor
    · show run.2.constructors ++ [run.1] ++ (Report.concat _).constructors = run.1 :: _
      rw [hbody.constructors, ih.1]
      rfl
    · show (run.2.objects.merge ∅).merge (Report.concat _).objects = ∅
      rw [hbody.objects, ih.2]
      rfl

/-- The second pass leaves one summary for each constructor of a class, in order, and the join of
the states in them. -/
theorem summaries_checkClass {c : ClassDecl} {d : Report} (h : Yields (checkClass env c) () d) :
    List.Forall₂ (fun x summary => ∃ e, Yields (checkConstructor env c x.2 x.1) summary e)
        c.constructors.zipIdx d.constructors ∧
      d.objects = (Report.ofObject? c.name
        (ObjectState.joinAll? (d.constructors.map ConstructorSummary.object))).objects := by
  obtain ⟨runs, ds, hruns, hds, rfl⟩ := exists_parts_checkClass h
  obtain ⟨hconstructors, hobjects⟩ := constructors_of_runs hruns
  have hmethods : (Report.concat ds).OfBodies := by
    refine Report.ofBodies_concat fun e he => ?_
    obtain ⟨m, -, i, hm⟩ := exists_of_mem_forall₂ hds he
    exact (traces_checkMethod c i m () e hm).ofBodies
  have hobject : ∀ object, (Report.ofObject? c.name object).constructors = [] := by
    intro object
    cases object <;> rfl
  simp only [Report.append_constructors, Report.append_objects, hconstructors, hobjects, hobject,
    hmethods.constructors, hmethods.objects, List.append_nil, OrderedMap.empty_merge,
    OrderedMap.merge_empty, List.map_map]
  refine ⟨?_, rfl⟩
  exact List.forall₂_map_right_iff.2 (hruns.imp fun x run hrun => ⟨run.2, hrun⟩)

end Checker

end Mutability
