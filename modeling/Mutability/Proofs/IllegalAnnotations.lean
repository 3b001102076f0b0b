import Mutability.Proofs.BodyTraces

/-!
# Illegal annotations are reported once

Which annotations are reported as illegal does not depend on how a program is typed: the two passes
come to every site of the program once, and each illegal annotation leaves one diagnostic there
(`illegal_annotations_reported_once`). `Program.sites` lists the sites in the order of the passes:
first those of all declarations, then those in all bodies.

A trace is read here for what it says about annotations and positions (`Traced.visited`). In this
form it can be put together over the members of a class and the classes of a program, where
constructors and objects come in between (`Program.visited_of_check`).
-/

namespace Mutability

/-- The position of the slot as it is written. -/
def Slot.asWritten (π : Policy) (s : Slot) : Position :=
  .written s.kind s.host (π.resolve? s.text).toOption.join

theorem Slot.asWritten_of_resolve? {π : Policy} {s : Slot} {explicit : Option Qualifier}
    (h : π.resolve? s.text = .ok explicit) :
    s.asWritten π = .written s.kind s.host explicit := by
  unfold asWritten
  rw [h]
  rfl

/-- What is reported about the annotation of the site. -/
def Site.finding? (π : Policy) (x : Site) : Option LocatedDiagnostic :=
  (π.illegality? (x.slot.asWritten π)).map (⟨x.location, ·⟩)

/-- The sites of a program: those of the declarations, then those in the bodies. -/
def Program.sites (p : Program) : List Site :=
  p.classes.flatMap ClassDecl.declaredSites ++ p.classes.flatMap ClassDecl.bodySites

/-- The slots of the local declarations of a program. -/
def Program.localSlots (p : Program) : List Slot :=
  p.classes.flatMap ClassDecl.localSlots

theorem Position.kind_of_illegality? {p : Position} {c : Configuration} {d : Diagnostic}
    (h : p.illegality? c = some d) :
    d.kind = if p.kind = .cast then .invalidCastQualifier else .typeInvalid := by
  unfold illegality? at h
  split at h
  · dsimp only at h
    split at h
    · exact (congrArg Diagnostic.kind (Option.some.inj h)).symm
    · split at h
      · exact (congrArg Diagnostic.kind (Option.some.inj h)).symm
      · split at h
        · exact (congrArg Diagnostic.kind (Option.some.inj h)).symm
        · cases h
  · cases h

theorem Position.aboutAnnotation_of_illegality? {p : Position} {c : Configuration} {d : Diagnostic}
    (h : p.illegality? c = some d) : d.AboutAnnotation := by
  have hkind := kind_of_illegality? h
  split at hkind
  · exact Or.inr hkind
  · exact Or.inl hkind

namespace Checker

/-! ## What a trace says -/

/-- The report has the findings about the sites and the positions of the slots, in order. -/
structure Visited (π : Policy) (sites : List Site) (slots : List Slot) (d : Report) : Prop where
  resolved : ∀ x ∈ sites, ∃ explicit, π.resolve? x.slot.text = .ok explicit
  findings : d.diagnostics.filter (fun x => x.diagnostic.AboutAnnotation) =
    sites.filterMap (Site.finding? π)
  positions : List.Forall₂ (Slot.RecordedAs π) slots d.positions

section

variable {π : Policy} {sites sites' : List Site} {slots slots' : List Slot} {r d : Report}

/-- A report without diagnostics and positions visits nothing. -/
theorem visited_of_nil (hdiagnostics : d.diagnostics = []) (hpositions : d.positions = []) :
    Visited π [] [] d where
  resolved x hx := absurd hx List.not_mem_nil
  findings := by rw [hdiagnostics]; rfl
  positions := by rw [hpositions]; exact .nil

theorem Visited.append (h : Visited π sites slots r) (h' : Visited π sites' slots' d) :
    Visited π (sites ++ sites') (slots ++ slots') (r ++ d) where
  resolved x hx := (List.mem_append.1 hx).elim (h.resolved x) (h'.resolved x)
  findings := by
    rw [Report.append_diagnostics, List.filter_append, List.filterMap_append, h.findings,
      h'.findings]
  positions := List.rel_append h.positions h'.positions

theorem visited_judged {l : Location} {s : Slot} {explicit : Option Qualifier}
    (h : π.resolve? s.text = .ok explicit) :
    Visited π [⟨l, s⟩] []
      (.ofDiagnostics l (π.illegality? (.written s.kind s.host explicit)).toList) where
  resolved x hx := by
    obtain rfl := List.mem_singleton.1 hx
    exact ⟨explicit, h⟩
  findings := by
    rw [List.filterMap_cons, List.filterMap_nil, Site.finding?, Slot.asWritten_of_resolve? h]
    unfold Report.ofDiagnostics
    cases hfinding : π.illegality? (.written s.kind s.host explicit) with
    | none => rfl
    | some d =>
      have habout : d.AboutAnnotation := Position.aboutAnnotation_of_illegality? hfinding
      simp [habout]
  positions := .nil

theorem Traced.visited (h : Traced π sites slots d) : Visited π sites slots d := by
  induction h with
  | nothing => exact visited_of_nil rfl rfl
  | append _ _ ih ih' => exact ih.append ih'
  | @remarks l ds h =>
    have hnone : (Report.ofDiagnostics l ds).diagnostics.filter
        (fun x => x.diagnostic.AboutAnnotation) = [] := by
      rw [List.filter_eq_nil_iff]
      intro x hx
      obtain ⟨d, hd, rfl⟩ := List.mem_map.1 hx
      simpa using h d hd
    exact ⟨fun x hx => absurd hx List.not_mem_nil, hnone, .nil⟩
  | judged h => exact visited_judged h
  | recorded h => exact ⟨fun x hx => absurd hx List.not_mem_nil, rfl, .cons h .nil⟩

/-- Reports one after the other visit what each of them visits. -/
theorem visited_concat {X : Type} {f : X → List Site} {g : X → List Slot} {xs : List X}
    {ds : List Report} (h : List.Forall₂ (fun x d => Visited π (f x) (g x) d) xs ds) :
    Visited π (xs.flatMap f) (xs.flatMap g) (Report.concat ds) := by
  induction h with
  | nil => exact visited_of_nil rfl rfl
  | cons hx _ ih => exact hx.append ih

end

/-! ## Classes and programs -/

theorem visited_checkClass {env : Env} {c : ClassDecl} {d : Report}
    (h : Yields (checkClass env c) () d) : Visited env.policy c.bodySites c.localSlots d := by
  obtain ⟨runs, ds, hruns, hds, rfl⟩ := exists_parts_checkClass h
  have hconstructors : Visited env.policy (c.constructors.zipIdx.flatMap c.constructorBodySites)
      (c.constructors.zipIdx.flatMap fun x => x.1.body.flatMap Stmt.localSlots)
      (Report.concat (runs.map fun run => run.2 ++ .ofSummary run.1)) := by
    refine visited_concat (List.forall₂_map_right_iff.2 (hruns.imp fun x run hrun => ?_))
    have hbody := (traces_checkConstructor c x.2 x.1 run.1 run.2 hrun).visited
    have hsummary : Visited env.policy [] [] (.ofSummary run.1) := visited_of_nil rfl rfl
    have hboth := hbody.append hsummary
    rwa [List.append_nil, List.append_nil] at hboth
  have hobject : Visited env.policy [] []
      (.ofObject? c.name (ObjectState.joinAll? (runs.map fun run => run.1.object))) := by
    cases ObjectState.joinAll? (runs.map fun run => run.1.object) with
    | none => exact visited_of_nil rfl rfl
    | some o => exact visited_of_nil rfl rfl
  have hmethods : Visited env.policy (c.methods.flatMap c.methodBodySites)
      (c.methods.flatMap fun m => m.body.flatMap Stmt.localSlots) (Report.concat ds) := by
    refine visited_concat (hds.imp fun m e he => ?_)
    obtain ⟨i, hi⟩ := he
    exact (traces_checkMethod c i m () e hi).visited
  -- The number of a constructor is needed for its location only.
  have hnumbers : (c.constructors.zipIdx.flatMap fun x => x.1.body.flatMap Stmt.localSlots) =
      c.constructors.flatMap fun k => k.body.flatMap Stmt.localSlots := by
    conv_rhs => rw [← List.zipIdx_map_fst 0 c.constructors, List.flatMap_map]
  rw [hnumbers] at hconstructors
  exact hconstructors.append (hobject.append hmethods)

end Checker

open Checker

/-- The report of a program visits all its sites, and the slots of its declarations and then those
of its local declarations. -/
theorem Program.visited_of_check {π : Policy} {p : Program} {r : Report} (h : p.check π = .ok r) :
    Visited π p.sites (p.slots ++ p.localSlots) r := by
  obtain ⟨tables, d₁, d₂, hfirst, hsecond, rfl⟩ := Program.check_eq_ok_iff.1 h
  obtain ⟨ds, hds, rfl⟩ := exists_concat_checkClasses hsecond
  have hdeclared := (traces_resolveClasses ∅ p.classes tables d₁ hfirst).visited
  have hbodies : Visited π (p.classes.flatMap ClassDecl.bodySites)
      (p.classes.flatMap ClassDecl.localSlots) (Report.concat ds) :=
    visited_concat (hds.imp fun c e he => visited_checkClass he)
  exact hdeclared.append hbodies

/-! ## The sites of a program -/

theorem Expr.exists_mem_of_mem_slotsAll {args : List Expr} {s : Slot}
    (h : s ∈ Expr.slotsAll args) : ∃ a ∈ args, s ∈ a.slots := by
  induction args with
  | nil => rw [Expr.slotsAll] at h; cases h
  | cons e rest ih =>
    rw [Expr.slotsAll, List.mem_append] at h
    rcases h with h | h
    · exact ⟨e, List.mem_cons_self, h⟩
    · obtain ⟨a, ha, hs⟩ := ih h
      exact ⟨a, List.mem_cons_of_mem e ha, hs⟩

/-- The slots of an expression are those of object creations and casts. -/
theorem Expr.kind_of_mem_slots {e : Expr} {s : Slot} (h : s ∈ e.slots) :
    s.kind = .newObject ∨ s.kind = .cast := by
  have hargs : ∀ {args : List Expr},
      (∀ a ∈ args, s ∈ a.slots → s.kind = .newObject ∨ s.kind = .cast) →
      s ∈ Expr.slotsAll args → s.kind = .newObject ∨ s.kind = .cast := by
    intro args ih hs
    obtain ⟨a, ha, hs⟩ := Expr.exists_mem_of_mem_slotsAll hs
    exact ih a ha hs
  induction e using Expr.inductionOn with
  | self => rw [Expr.slots] at h; cases h
  | null => rw [Expr.slots] at h; cases h
  | literal host => rw [Expr.slots] at h; cases h
  | var name => rw [Expr.slots] at h; cases h
  | fieldRead receiver name ih => rw [Expr.slots] at h; exact ih h
  | create className text args ih =>
    rw [Expr.slots, List.mem_cons] at h
    rcases h with rfl | h
    · exact Or.inl rfl
    · exact hargs ih h
  | call receiver name args ihr ih =>
    rw [Expr.slots, List.mem_append] at h
    exact h.elim ihr (hargs ih)
  | staticCall className name args ih => rw [Expr.slots] at h; exact hargs ih h
  | cast host text operand ih =>
    rw [Expr.slots, List.mem_append] at h
    rcases h with h | h
    · exact ih h
    · obtain rfl := List.mem_singleton.1 h
      exact Or.inr rfl
  | binary host lhs rhs ihl ihr =>
    rw [Expr.slots, List.mem_append] at h
    exact h.elim ihl ihr

theorem Stmt.kind_of_mem_slots {stmt : Stmt} {s : Slot} (h : s ∈ stmt.slots) :
    s.kind = .localVariable ∨ s.kind = .newObject ∨ s.kind = .cast := by
  have hexpr : ∀ {e : Expr}, s ∈ e.slots →
      s.kind = .localVariable ∨ s.kind = .newObject ∨ s.kind = .cast :=
    fun hs => Or.inr (Expr.kind_of_mem_slots hs)
  cases stmt with
  | localVar name host text init =>
    cases init with
    | none =>
      obtain rfl := List.mem_singleton.1 h
      exact Or.inl rfl
    | some e =>
      rcases List.mem_cons.1 h with rfl | h
      · exact Or.inl rfl
      · exact hexpr h
  | assign target value => exact hexpr h
  | fieldWrite receiver name value => exact (List.mem_append.1 h).elim hexpr hexpr
  | eval e => exact hexpr h
  | exit value =>
    cases value with
    | none => cases h
    | some e => exact hexpr h

theorem ParamDecl.kind_of_mem_slots {method : String} {index : Nat} {ps : List ParamDecl}
    {s : Slot} (h : s ∈ ParamDecl.slots method index ps) : ∃ i, s.kind = .parameter method i := by
  induction ps generalizing index with
  | nil => cases h
  | cons p rest ih =>
    rcases List.mem_cons.1 h with rfl | h
    · exact ⟨index, rfl⟩
    · exact ih h

theorem MethodDecl.receiver_of_mem_slots {m : MethodDecl} {host : HostType} {s : Slot}
    {name : String} (h : s ∈ m.slots host) (hk : s.kind = .receiver name) :
    m.isStatic = false ∧ s = ⟨.receiver m.name, host, m.receiverText⟩ := by
  unfold slots receiverSlot returnSlot at h
  simp only [List.mem_append] at h
  rcases h with h | h | h
  · split at h
    · cases h
    · next hs => exact ⟨by simpa using hs, List.mem_singleton.1 h⟩
  · obtain ⟨i, hi⟩ := ParamDecl.kind_of_mem_slots h
    rw [hi] at hk
    cases hk
  · split at h
    · cases h
    · obtain rfl := List.mem_singleton.1 h
      cases hk

theorem MethodDecl.return_of_mem_slots {m : MethodDecl} {host : HostType} {s : Slot}
    {name : String} (h : s ∈ m.slots host) (hk : s.kind = .methodReturn name) :
    ∃ returns, m.returns = some returns ∧ s = ⟨.methodReturn m.name, returns, m.returnText⟩ := by
  unfold slots receiverSlot returnSlot at h
  simp only [List.mem_append] at h
  rcases h with h | h | h
  · split at h
    · cases h
    · obtain rfl := List.mem_singleton.1 h
      cases hk
  · obtain ⟨i, hi⟩ := ParamDecl.kind_of_mem_slots h
    rw [hi] at hk
    cases hk
  · split at h
    · cases h
    · next returns hr => exact ⟨returns, hr, List.mem_singleton.1 h⟩

/-- The position is a receiver or a return. -/
def Position.Kind.OfMethod (kind : Position.Kind) : Prop :=
  ∃ name, kind = .receiver name ∨ kind = .methodReturn name

/-- A receiver or a return is that of a method. -/
theorem ClassDecl.exists_method_of_mem_declaredSites {c : ClassDecl} {x : Site}
    (h : x ∈ c.declaredSites) (hk : x.slot.kind.OfMethod) :
    ∃ m ∈ c.methods, x.location = c.methodLocation m ∧ x.slot ∈ m.slots c.host := by
  obtain ⟨name, hk⟩ := hk
  unfold declaredSites fieldSites constructorSites methodSites at h
  simp only [List.mem_append, List.mem_map, List.mem_flatMap] at h
  rcases h with ⟨f, -, rfl⟩ | ⟨k, -, s, hs, rfl⟩ | ⟨m, hm, s, hs, rfl⟩
  · dsimp only [FieldDecl.slot, FieldDecl.kind] at hk
    split at hk <;> rcases hk with hk | hk <;> cases hk
  · rcases List.mem_cons.1 hs with rfl | hs
    · rcases hk with hk | hk <;> cases hk
    · obtain ⟨i, hi⟩ := ParamDecl.kind_of_mem_slots hs
      dsimp only at hk
      rw [hi] at hk
      rcases hk with hk | hk <;> cases hk
  · exact ⟨m, hm, rfl, hs⟩

theorem ClassDecl.kind_of_mem_bodySites {c : ClassDecl} {x : Site} (h : x ∈ c.bodySites) :
    x.slot.kind = .localVariable ∨ x.slot.kind = .newObject ∨ x.slot.kind = .cast := by
  unfold bodySites constructorBodySites methodBodySites at h
  simp only [List.mem_append, List.mem_map, List.mem_flatMap] at h
  rcases h with ⟨k, -, s, ⟨stmt, -, hs⟩, rfl⟩ | ⟨m, -, s, ⟨stmt, -, hs⟩, rfl⟩
  · exact Stmt.kind_of_mem_slots hs
  · exact Stmt.kind_of_mem_slots hs

theorem Program.exists_method_of_mem_sites {p : Program} {x : Site} (h : x ∈ p.sites)
    (hk : x.slot.kind.OfMethod) :
    ∃ c ∈ p.classes, ∃ m ∈ c.methods, x.location = c.methodLocation m ∧
      x.slot ∈ m.slots c.host := by
  rcases List.mem_append.1 h with h | h
  · obtain ⟨c, hc, hx⟩ := List.mem_flatMap.1 h
    exact ⟨c, hc, ClassDecl.exists_method_of_mem_declaredSites hx hk⟩
  · obtain ⟨c, hc, hx⟩ := List.mem_flatMap.1 h
    obtain ⟨name, hk⟩ := hk
    rcases ClassDecl.kind_of_mem_bodySites hx with hb | hb | hb <;> rw [hb] at hk <;>
      rcases hk with hk | hk <;> cases hk

/-! ## Reports -/

/-- The findings at one location, by the sites there. -/
theorem findings_at {π : Policy} {sites : List Site} {ds : List LocatedDiagnostic}
    (h : ds.filter (fun x => x.diagnostic.AboutAnnotation) = sites.filterMap (Site.finding? π))
    (l : Location) :
    (ds.filter fun x => x.location = l ∧ x.diagnostic.AboutAnnotation).map
        LocatedDiagnostic.diagnostic =
      (sites.filter fun x => x.location = l).filterMap
        fun x => π.illegality? (x.slot.asWritten π) := by
  have hsplit : (ds.filter fun x => x.location = l ∧ x.diagnostic.AboutAnnotation) =
      (sites.filterMap (Site.finding? π)).filter fun x => x.location = l := by
    rw [← h, List.filter_filter]
    simp only [Bool.decide_and]
  rw [hsplit, List.filter_filterMap, List.map_filterMap, List.filterMap_filter]
  refine List.filterMap_congr fun x _ => ?_
  unfold Site.finding?
  -- A finding has the location of its site.
  by_cases hl : x.location = l
  · cases π.illegality? (x.slot.asWritten π) <;> simp [hl]
  · cases π.illegality? (x.slot.asWritten π) <;> simp [hl]

/-- In the report of a program, what is said at a location about annotations that can never be legal
is what is wrong with the annotations written there, once each and in the order of the passes. The
annotations are those of the sites of the program, and a site without one has no finding. The
receiver of a static method and the return of a method without a value are no sites. -/
theorem illegal_annotations_reported_once (π : Policy) (p : Program) (r : Report)
    (h : p.check π = .ok r) :
    (∀ l, (r.diagnostics.filter fun x => x.location = l ∧ x.diagnostic.AboutAnnotation).map
        LocatedDiagnostic.diagnostic =
      (p.sites.filter fun x => x.location = l).filterMap
        fun x => π.illegality? (x.slot.asWritten π)) ∧
    (∀ x ∈ p.sites,
      (∃ explicit, π.resolve? x.slot.text = .ok explicit ∧
        x.slot.asWritten π = .written x.slot.kind x.slot.host explicit) ∧
      (x.slot.text = none → π.illegality? (x.slot.asWritten π) = none) ∧
      ∀ d, π.illegality? (x.slot.asWritten π) = some d →
        d.kind = if x.slot.kind = .cast then .invalidCastQualifier else .typeInvalid) ∧
    (∀ x ∈ p.sites, ∀ name, x.slot.kind = .receiver name →
      ∃ c ∈ p.classes, ∃ m ∈ c.methods, m.isStatic = false ∧
        x = ⟨c.methodLocation m, ⟨.receiver m.name, c.host, m.receiverText⟩⟩) ∧
    ∀ x ∈ p.sites, ∀ name, x.slot.kind = .methodReturn name →
      ∃ c ∈ p.classes, ∃ m ∈ c.methods, ∃ returns, m.returns = some returns ∧
        x = ⟨c.methodLocation m, ⟨.methodReturn m.name, returns, m.returnText⟩⟩ := by
  have hvisited := Program.visited_of_check h
  refine ⟨fun l => findings_at hvisited.findings l, fun x hx => ⟨?_, ?_, ?_⟩, ?_, ?_⟩
  · obtain ⟨explicit, hexp⟩ := hvisited.resolved x hx
    exact ⟨explicit, hexp, Slot.asWritten_of_resolve? hexp⟩
  · intro hnone
    have hresolve : π.resolve? x.slot.text = .ok none := by rw [hnone]; rfl
    rw [Slot.asWritten_of_resolve? hresolve]
    rfl
  · intro d hd
    exact Position.kind_of_illegality? hd
  · intro x hx name hk
    obtain ⟨c, hc, m, hm, hlocation, hslot⟩ :=
      Program.exists_method_of_mem_sites hx ⟨name, Or.inl hk⟩
    obtain ⟨hstatic, hs⟩ := MethodDecl.receiver_of_mem_slots hslot hk
    refine ⟨c, hc, m, hm, hstatic, ?_⟩
    rw [← hlocation, ← hs]
  · intro x hx name hk
    obtain ⟨c, hc, m, hm, hlocation, hslot⟩ :=
      Program.exists_method_of_mem_sites hx ⟨name, Or.inr hk⟩
    obtain ⟨returns, hreturns, hs⟩ := MethodDecl.return_of_mem_slots hslot hk
    refine ⟨c, hc, m, hm, returns, hreturns, ?_⟩
    rw [← hlocation, ← hs]

/-- A class with an annotation that can never be legal at every place that it has for one. -/
def crateClass : ClassDecl where
  name := "Crate"
  fields := [⟨"held", .primitive .int, some "@Mutable", false, false, false⟩]
  constructors := [⟨some "@Bottom", [⟨"n", .primitive .int, some "@Readonly"⟩], []⟩]
  methods := [
    { name := "open", isStatic := true, receiverText := some "@Bottom"
      params := [⟨"x", .primitive .int, some "@Readonly"⟩], returns := none
      returnText := some "@Bottom"
      body := [.eval (.cast (.declared "Crate") (some "@Bottom")
        (.create "Crate" (some "@SubstitutablePolyMutable")
          [.cast (.primitive .int) (some "@Mutable") (.var "x")]))] }]

/-- At the method the parameter is reported, then the object creation, the cast of its argument and
the cast around it. The receiver and the return, which the method does not have, are not. -/
theorem illegal_annotations_reported_once_crateClass :
    ∃ r, (Program.mk [crateClass]).check default = .ok r ∧
      (r.diagnostics.filter fun x =>
          x.location = ⟨"Crate", "open"⟩ ∧ x.diagnostic.AboutAnnotation).map
        (fun x => x.diagnostic.kind) =
        [.typeInvalid, .typeInvalid, .invalidCastQualifier, .invalidCastQualifier] := by
  have hok : ((Program.mk [crateClass]).check default).toOption.isSome = true := by
    decide +kernel
  cases hr : (Program.mk [crateClass]).check default with
  | error f => rw [hr] at hok; cases hok
  | ok r =>
    refine ⟨r, rfl, ?_⟩
    obtain ⟨hat, -⟩ := illegal_annotations_reported_once default ⟨[crateClass]⟩ r hr
    have hkinds := congrArg (List.map Diagnostic.kind) (hat ⟨"Crate", "open"⟩)
    rw [List.map_map] at hkinds
    exact hkinds.trans (by decide +kernel)

end Mutability
