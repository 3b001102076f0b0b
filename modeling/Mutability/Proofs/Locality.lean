import Mutability.Proofs.BodyRuns
import Mutability.Proofs.ExpressionFrame

/-!
# What is reported about a class comes from the class

Whatever either pass adds to the report while it works on a class is about that class: its
diagnostics and constructors are located there, and it is the only class whose objects are given a
state (`staysIn_resolveClass`, `staysIn_checkClass`). With class names that differ, the part of a
report that is about a class is therefore the part that its own two passes have added
(`on_resolveClasses`, `on_checkClasses`).
-/

namespace Mutability

namespace Report

/-- The report says something about one class only. -/
structure About (r : Report) (owner : String) : Prop where
  diagnostics : ∀ x ∈ r.diagnostics, x.location.className = owner
  constructors : ∀ x ∈ r.constructors, x.location.className = owner
  objects : ∀ name, name ≠ owner → r.objects.get? name = none

theorem about_empty (owner : String) : About ∅ owner :=
  ⟨fun _ hx => absurd hx List.not_mem_nil, fun _ hx => absurd hx List.not_mem_nil, fun _ _ => rfl⟩

theorem About.append {r d : Report} {owner : String} (hr : r.About owner) (hd : d.About owner) :
    (r ++ d).About owner where
  diagnostics x hx := (List.mem_append.1 hx).elim (hr.diagnostics x) (hd.diagnostics x)
  constructors x hx := (List.mem_append.1 hx).elim (hr.constructors x) (hd.constructors x)
  objects name hname := by
    rw [append_objects, OrderedMap.get?_merge, hr.objects name hname, hd.objects name hname]
    rfl

theorem about_ofDiagnostics {l : Location} {owner : String} (h : l.className = owner)
    (ds : List Diagnostic) : (ofDiagnostics l ds).About owner where
  diagnostics x hx := by
    obtain ⟨d, -, rfl⟩ := List.mem_map.1 hx
    exact h
  constructors _ hx := absurd hx List.not_mem_nil
  objects _ _ := rfl

theorem about_ofPosition (p : Position) (owner : String) : (ofPosition p).About owner :=
  ⟨fun _ hx => absurd hx List.not_mem_nil, fun _ hx => absurd hx List.not_mem_nil, fun _ _ => rfl⟩

end Report

namespace Checker

/-- Whatever the computation adds to the report is about one class. -/
def StaysIn {α : Type} (owner : String) (m : Check α) : Prop :=
  ∀ a d, Yields m a d → d.About owner

section

variable {α β : Type} {owner : String}

theorem StaysIn.bind_of_yields {m : Check α} {k : α → Check β} [∀ a, Additive (k a)]
    (hm : StaysIn owner m) (hk : ∀ a d, Yields m a d → StaysIn owner (k a)) :
    StaysIn owner (m >>= k) := by
  intro b d h
  obtain ⟨a, d₁, d₂, h₁, h₂, rfl⟩ := yields_bind.1 h
  exact (hm a d₁ h₁).append (hk a d₁ h₁ b d₂ h₂)

theorem StaysIn.bind {m : Check α} {k : α → Check β} [∀ a, Additive (k a)]
    (hm : StaysIn owner m) (hk : ∀ a, StaysIn owner (k a)) : StaysIn owner (m >>= k) :=
  hm.bind_of_yields fun a _ _ => hk a

theorem staysIn_pure (a : α) : StaysIn owner (pure a : Check α) := by
  intro b d h
  rw [(yields_pure.1 h).2]
  exact Report.about_empty owner

theorem staysIn_lift (x : Except Fault α) : StaysIn owner (liftM x : Check α) := by
  intro a d h
  rw [(yields_lift.1 h).2]
  exact Report.about_empty owner

theorem staysIn_emitAll {l : Location} (h : l.className = owner) (ds : List Diagnostic) :
    StaysIn owner (emitAll l ds) := by
  intro u d hd
  rw [yields_emitAll.1 hd]
  exact Report.about_ofDiagnostics h ds

theorem staysIn_recordPosition (p : Position) : StaysIn owner (recordPosition p) := by
  intro u d hd
  rw [yields_recordPosition.1 hd]
  exact Report.about_ofPosition p owner

end

/-! ## The first pass -/

section

variable {π : Policy} {owner : String}

theorem staysIn_declare {l : Location} (h : l.className = owner) (kind : Position.Kind)
    (host : HostType) (text : Option String) : StaysIn owner (declare π l kind host text) := by
  simp only [declare, validate]
  refine (staysIn_lift _).bind fun explicit => ?_
  refine (staysIn_emitAll h _).bind fun _ => ?_
  refine (staysIn_lift _).bind fun q => ?_
  exact (staysIn_recordPosition _).bind fun _ => staysIn_pure _

theorem staysIn_resolveParams {l : Location} (h : l.className = owner) (method : String)
    (index : Nat) (ps : List ParamDecl) :
    StaysIn owner (resolveParams π l method index ps) := by
  induction ps generalizing index with
  | nil => exact staysIn_pure []
  | cons p rest ih =>
    unfold resolveParams
    refine (staysIn_declare h _ _ _).bind fun d => ?_
    exact (ih (index + 1)).bind fun rs => staysIn_pure _

theorem staysIn_resolveFields (c : ClassDecl) (fields : OrderedMap String ResolvedField)
    (fs : List FieldDecl) : StaysIn c.name (resolveFields π c fields fs) := by
  induction fs generalizing fields with
  | nil => exact staysIn_pure fields
  | cons f rest ih =>
    have hf : StaysIn c.name (resolveField π c f) := by
      unfold resolveField
      exact (staysIn_declare rfl _ _ _).bind fun d => staysIn_pure _
    unfold resolveFields
    exact hf.bind fun r => ih _

theorem staysIn_resolveConstructors (c : ClassDecl) (index : Nat) (ks : List ConstructorDecl) :
    StaysIn c.name (resolveConstructors π c index ks) := by
  induction ks generalizing index with
  | nil => exact staysIn_pure []
  | cons k rest ih =>
    have hk : StaysIn c.name (resolveConstructor π c index k) := by
      unfold resolveConstructor
      refine (staysIn_declare rfl _ _ _).bind fun d => ?_
      exact (staysIn_resolveParams rfl _ _ _).bind fun rs => staysIn_pure _
    unfold resolveConstructors
    exact hk.bind fun r => (ih (index + 1)).bind fun rs => staysIn_pure _

theorem staysIn_resolveMethod (c : ClassDecl) (m : MethodDecl) :
    StaysIn c.name (resolveMethod π c m) := by
  have hreceiver : StaysIn c.name (resolveReceiver π c m) := by
    unfold resolveReceiver
    split
    · exact staysIn_pure none
    · exact (staysIn_declare rfl _ _ _).bind fun d => staysIn_pure _
  have hreturn : StaysIn c.name (resolveReturn π c m) := by
    unfold resolveReturn
    split
    · exact staysIn_pure _
    · exact (staysIn_declare rfl _ _ _).bind fun d => staysIn_pure _
  unfold resolveMethod
  refine hreceiver.bind fun receiver => ?_
  refine (staysIn_resolveParams rfl _ _ _).bind fun rs => ?_
  exact hreturn.bind fun q => staysIn_pure _

theorem staysIn_resolveMethods (c : ClassDecl) (ms : List MethodDecl) :
    StaysIn c.name (resolveMethods π c ms) := by
  induction ms with
  | nil => exact staysIn_pure []
  | cons m rest ih =>
    unfold resolveMethods
    exact (staysIn_resolveMethod c m).bind fun r => ih.bind fun rs => staysIn_pure _

theorem staysIn_resolveClass (c : ClassDecl) : StaysIn c.name (resolveClass π c) := by
  unfold resolveClass
  refine (staysIn_resolveFields c ∅ c.fields).bind fun fields => ?_
  refine (staysIn_resolveConstructors c 0 c.constructors).bind fun ks => ?_
  exact (staysIn_resolveMethods c c.methods).bind fun ms => staysIn_pure _

end

/-! ## The second pass -/

section

variable {env : Env} {owner : String}

theorem staysIn_checkExpr {s : Scope} (hs : s.location.className = owner) (e : Expr) :
    StaysIn owner (checkExpr env s e) := by
  intro t d h
  obtain ⟨ds, rfl⟩ := speaksOf_checkExpr e t d h
  exact Report.about_ofDiagnostics hs ds

theorem staysIn_assignVar {s : Scope} (hs : s.location.className = owner) (declared : Position)
    (value : Qualifier) : StaysIn owner (assignVar env s declared value) := by
  rw [assignVar_eq]
  refine (staysIn_lift _).bind fun required => ?_
  split
  · exact (staysIn_emitAll hs _).bind fun _ => staysIn_pure _
  · exact staysIn_pure _

theorem staysIn_checkStmt {s : Scope} (hs : s.location.className = owner) (stmt : Stmt) :
    StaysIn owner (checkStmt env s stmt) := by
  cases stmt with
  | localVar name host text init =>
    cases init with
    | none =>
      unfold checkStmt
      exact (staysIn_declare hs _ _ _).bind fun d => staysIn_pure _
    | some e =>
      unfold checkStmt
      refine (staysIn_declare hs _ _ _).bind fun d => (staysIn_checkExpr hs e).bind fun t => ?_
      exact (staysIn_assignVar hs _ _).bind fun q => staysIn_pure _
  | assign target e =>
    unfold checkStmt
    refine (staysIn_lift _).bind fun v => (staysIn_checkExpr hs e).bind fun t => ?_
    exact (staysIn_assignVar hs _ _).bind fun q => staysIn_pure _
  | fieldWrite receiver name e =>
    unfold checkStmt
    refine (staysIn_checkExpr hs receiver).bind fun t => (staysIn_lift _).bind fun f => ?_
    refine (staysIn_checkExpr hs e).bind fun value => ?_
    exact (staysIn_emitAll hs _).bind fun _ => staysIn_pure _
  | eval e =>
    unfold checkStmt
    exact (staysIn_checkExpr hs e).bind fun t => staysIn_pure _
  | exit value =>
    cases value with
    | none => exact staysIn_pure s
    | some e =>
      rw [checkStmt_exit_some]
      refine (staysIn_checkExpr hs e).bind fun t => ?_
      exact (staysIn_emitAll hs _).bind fun _ => staysIn_pure _

theorem staysIn_checkBody {s : Scope} (hs : s.location.className = owner) (body : List Stmt) :
    StaysIn owner (checkBody env s body) := by
  induction body generalizing s with
  | nil => exact staysIn_pure s
  | cons stmt rest ih =>
    unfold checkBody
    refine (staysIn_checkStmt hs stmt).bind_of_yields fun next d hnext => ih ?_
    -- A statement does not leave the member it stands in.
    rw [(sameMember_of_checkStmt hnext.within).location]
    exact hs

theorem staysIn_recordSummary {summary : ConstructorSummary}
    (h : summary.location.className = owner) : StaysIn owner (recordSummary summary) := by
  intro u d hd
  obtain ⟨-, rfl⟩ := Prod.mk.inj (Except.ok.inj hd)
  refine ⟨fun _ hx => absurd hx List.not_mem_nil, fun x hx => ?_, fun _ _ => rfl⟩
  obtain rfl := List.mem_singleton.1 hx
  exact h

theorem staysIn_recordObject? (object : Option ObjectState) :
    StaysIn owner (recordObject? owner object) := by
  cases object with
  | none => exact staysIn_pure ()
  | some o =>
    intro u d hd
    obtain ⟨-, rfl⟩ := Prod.mk.inj (Except.ok.inj hd)
    refine ⟨fun _ hx => absurd hx List.not_mem_nil, fun _ hx => absurd hx List.not_mem_nil,
      fun name hname => ?_⟩
    show ((∅ : OrderedMap String ObjectState).insert owner o).get? name = none
    rw [OrderedMap.get?_insert, if_neg hname]
    rfl

theorem staysIn_checkConstructor (c : ClassDecl) (index : Nat) (k : ConstructorDecl) :
    StaysIn c.name (checkConstructor env c index k) := by
  rw [checkConstructor_eq]
  refine (staysIn_lift _).bind fun table => (staysIn_lift _).bind fun r => ?_
  refine (staysIn_emitAll rfl _).bind fun _ => ?_
  exact (staysIn_checkBody rfl k.body).bind fun s => staysIn_pure _

theorem staysIn_checkConstructors (c : ClassDecl) (index : Nat) (ks : List ConstructorDecl) :
    StaysIn c.name (checkConstructors env c index ks) := by
  induction ks generalizing index with
  | nil => exact staysIn_pure []
  | cons k rest ih =>
    unfold checkConstructors
    refine (staysIn_checkConstructor c index k).bind_of_yields fun summary d hsummary => ?_
    have hlocation : summary.location.className = c.name := by
      obtain ⟨table, r, s', -, -, -, -, rfl⟩ := within_checkConstructor.1 hsummary.within
      rfl
    refine (staysIn_recordSummary hlocation).bind fun _ => ?_
    exact (ih (index + 1)).bind fun objects => staysIn_pure _

theorem staysIn_checkMethods (c : ClassDecl) (index : Nat) (ms : List MethodDecl) :
    StaysIn c.name (checkMethods env c index ms) := by
  induction ms generalizing index with
  | nil => exact staysIn_pure ()
  | cons m rest ih =>
    have hm : StaysIn c.name (checkMethod env c index m) := by
      rw [checkMethod_eq]
      refine (staysIn_lift _).bind fun table => (staysIn_lift _).bind fun r => ?_
      exact (staysIn_checkBody rfl m.body).bind fun s => staysIn_pure _
    unfold checkMethods
    exact hm.bind fun _ => ih (index + 1)

theorem staysIn_checkClass (c : ClassDecl) : StaysIn c.name (checkClass env c) := by
  rw [checkClass_eq]
  refine (staysIn_checkConstructors c 0 c.constructors).bind fun objects => ?_
  exact (staysIn_recordObject? _).bind fun _ => staysIn_checkMethods c 0 c.methods

end

end Checker

/-! ## The part about a class -/

/-- What a report says about one class. -/
structure ClassReport where
  diagnostics : List LocatedDiagnostic
  constructors : List ConstructorSummary
  object : Option ObjectState
deriving DecidableEq, Repr

namespace Report

/-- The part of a report that is about a class. -/
def on (r : Report) (owner : String) : ClassReport where
  diagnostics := r.diagnostics.filter fun x => x.location.className = owner
  constructors := r.constructors.filter fun x => x.location.className = owner
  object := r.objects.get? owner

theorem on_append (r d : Report) (owner : String) :
    (r ++ d).on owner = ⟨(r.on owner).diagnostics ++ (d.on owner).diagnostics,
      (r.on owner).constructors ++ (d.on owner).constructors,
      (d.on owner).object.or (r.on owner).object⟩ := by
  unfold on
  rw [append_diagnostics, append_constructors, append_objects, List.filter_append,
    List.filter_append, OrderedMap.get?_merge]

theorem About.on_eq {r : Report} {other owner : String} (h : r.About other) (hne : other ≠ owner) :
    r.on owner = (∅ : Report).on owner := by
  have hdiagnostics : r.diagnostics.filter (fun x => x.location.className = owner) = [] := by
    rw [List.filter_eq_nil_iff]
    intro x hx
    rw [h.diagnostics x hx]
    simpa using hne
  have hconstructors : r.constructors.filter (fun x => x.location.className = owner) = [] := by
    rw [List.filter_eq_nil_iff]
    intro x hx
    rw [h.constructors x hx]
    simpa using hne
  unfold on
  rw [hdiagnostics, hconstructors, h.objects owner (Ne.symm hne)]
  rfl

theorem on_append_left {r d : Report} {other owner : String} (hr : r.About other)
    (hne : other ≠ owner) : (r ++ d).on owner = d.on owner := by
  rw [on_append, hr.on_eq hne, ← on_append, empty_append]

theorem on_append_right {r d : Report} {owner : String} (hd : d.on owner = (∅ : Report).on owner) :
    (r ++ d).on owner = r.on owner := by
  rw [on_append, hd, ← on_append, append_empty]

/-- All the reports, one after the other. -/
def concat (ds : List Report) : Report :=
  ds.foldr (· ++ ·) ∅

variable {Q : ClassDecl → Report → Prop} {cs : List ClassDecl} {ds : List Report}

theorem on_concat_of_not_mem (hQ : ∀ c d, Q c d → d.About c.name) (h : List.Forall₂ Q cs ds)
    {owner : String} (hn : owner ∉ cs.map ClassDecl.name) :
    (concat ds).on owner = (∅ : Report).on owner := by
  induction h with
  | nil => rfl
  | cons hc _ ih =>
    rw [List.map_cons, List.mem_cons, not_or] at hn
    exact (on_append_left (hQ _ _ hc) (Ne.symm hn.1)).trans (ih hn.2)

/-- Of reports about classes with different names, only its own says anything about a class. -/
theorem on_concat (hQ : ∀ c d, Q c d → d.About c.name) (h : List.Forall₂ Q cs ds)
    (hn : (cs.map ClassDecl.name).Nodup) {c : ClassDecl} (hc : c ∈ cs) :
    ∃ d, Q c d ∧ (concat ds).on c.name = d.on c.name := by
  induction h with
  | nil => cases hc
  | @cons c' d cs ds hcd hrest ih =>
    rw [List.map_cons, List.nodup_cons] at hn
    rcases List.mem_cons.1 hc with rfl | hc
    · exact ⟨d, hcd, on_append_right (on_concat_of_not_mem hQ hrest hn.1)⟩
    -- The first report is about another class, and drops out.
    · obtain ⟨d', hd', hon⟩ := ih hn.2 hc
      have hne : c'.name ≠ c.name := fun he => hn.1 (he ▸ List.mem_map_of_mem hc)
      exact ⟨d', hd', (on_append_left (hQ _ _ hcd) hne).trans hon⟩

end Report

namespace Checker

/-- The first pass adds what it adds for each class, in order. -/
theorem exists_concat_resolveClasses {π : Policy} {tables tables' : Tables} {cs : List ClassDecl}
    {d : Report} (h : Yields (resolveClasses π tables cs) tables' d) :
    ∃ ds, List.Forall₂ (fun c e => ∃ table, Yields (resolveClass π c) table e) cs ds ∧
      d = Report.concat ds := by
  induction cs generalizing tables d with
  | nil => exact ⟨[], .nil, (yields_pure.1 h).2⟩
  | cons c rest ih =>
    unfold resolveClasses at h
    obtain ⟨table, e, d', htable, hrest, rfl⟩ := yields_bind.1 h
    obtain ⟨ds, hds, rfl⟩ := ih hrest
    exact ⟨e :: ds, .cons ⟨table, htable⟩ hds, rfl⟩

/-- The second pass adds what it adds for each class, in order. -/
theorem exists_concat_checkClasses {env : Env} {cs : List ClassDecl} {d : Report}
    (h : Yields (checkClasses env cs) () d) :
    ∃ ds, List.Forall₂ (fun c e => Yields (checkClass env c) () e) cs ds ∧
      d = Report.concat ds := by
  induction cs generalizing d with
  | nil => exact ⟨[], .nil, (yields_pure.1 h).2⟩
  | cons c rest ih =>
    unfold checkClasses at h
    obtain ⟨_, e, d', hc, hrest, rfl⟩ := yields_bind.1 h
    obtain ⟨ds, hds, rfl⟩ := ih hrest
    exact ⟨e :: ds, .cons hc hds, rfl⟩

theorem on_resolveClasses {π : Policy} {tables tables' : Tables} {cs : List ClassDecl}
    {d : Report} (h : Yields (resolveClasses π tables cs) tables' d)
    (hn : (cs.map ClassDecl.name).Nodup) {c : ClassDecl} (hc : c ∈ cs) :
    ∃ table e, Yields (resolveClass π c) table e ∧ d.on c.name = e.on c.name := by
  obtain ⟨ds, hds, rfl⟩ := exists_concat_resolveClasses h
  obtain ⟨e, ⟨table, htable⟩, hon⟩ := Report.on_concat
    (fun c e ⟨table, htable⟩ => staysIn_resolveClass c table e htable) hds hn hc
  exact ⟨table, e, htable, hon⟩

theorem on_checkClasses {env : Env} {cs : List ClassDecl} {d : Report}
    (h : Yields (checkClasses env cs) () d) (hn : (cs.map ClassDecl.name).Nodup) {c : ClassDecl}
    (hc : c ∈ cs) : ∃ e, Yields (checkClass env c) () e ∧ d.on c.name = e.on c.name := by
  obtain ⟨ds, hds, rfl⟩ := exists_concat_checkClasses h
  exact Report.on_concat (fun c e he => staysIn_checkClass c () e he) hds hn hc

end Checker

end Mutability
