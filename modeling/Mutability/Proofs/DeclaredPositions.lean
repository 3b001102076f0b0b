import Mutability.Proofs.Annotation
import Mutability.Proofs.TableRuns

/-!
# The annotations of declarations

A program has a place for an annotation (a `Slot`) at every field, constructor return, parameter,
receiver and return; `Program.slots` lists them as the first pass comes to them. A `Site` is a slot
together with the member that a diagnostic about its annotation belongs to.

`Traced` says what a part of a run leaves in the report: it judges the annotations of some sites, in
order, and records the positions of some slots, in order, and whatever else it reports is not about
an annotation. The first pass judges and records the slots of all classes (`traces_resolveClasses`),
so that each of them leaves one position in the report, at the same place of the list
(`records_resolveClasses`).
-/

namespace Mutability

/-- A place of a program where an annotation may be written, and the one that is. -/
structure Slot where
  kind : Position.Kind
  host : HostType
  text : Option String
deriving DecidableEq, Repr

/-- The position that the slot leaves in a report. -/
def Slot.Becomes (π : Policy) (s : Slot) (p : Position) : Prop :=
  ∃ explicit, π.resolve? s.text = .ok explicit ∧
    p = π.annotate (.written s.kind s.host explicit)

theorem Slot.Becomes.unique {π : Policy} {s : Slot} {p q : Position} (hp : s.Becomes π p)
    (hq : s.Becomes π q) : p = q := by
  obtain ⟨explicit, hexp, rfl⟩ := hp
  obtain ⟨explicit', hexp', rfl⟩ := hq
  obtain rfl := Except.ok.inj (hexp.symm.trans hexp')
  rfl

/-- The slot leaves the position, and defaulting has given it a qualifier. -/
structure Slot.RecordedAs (π : Policy) (s : Slot) (p : Position) : Prop where
  becomes : s.Becomes π p
  qualified : ∃ q, p.qualifier? = some q

def FieldDecl.slot (f : FieldDecl) : Slot :=
  ⟨f.kind, f.host, f.qualifierText⟩

/-- The slots of parameters, numbered from `index` on. -/
def ParamDecl.slots (method : String) (index : Nat) : List ParamDecl → List Slot
  | [] => []
  | p :: rest => ⟨.parameter method index, p.host, p.qualifierText⟩ ::
    ParamDecl.slots method (index + 1) rest

def ConstructorDecl.slots (host : HostType) (k : ConstructorDecl) : List Slot :=
  ⟨.constructorReturn, host, k.qualifierText⟩ ::
    ParamDecl.slots Checker.constructorName 0 k.params

/-- The slot of the receiver, which a static method does not have. -/
def MethodDecl.receiverSlot (host : HostType) (m : MethodDecl) : List Slot :=
  if m.isStatic then [] else [⟨.receiver m.name, host, m.receiverText⟩]

/-- The slot of the return, which a method without a value does not have. -/
def MethodDecl.returnSlot (m : MethodDecl) : List Slot :=
  match m.returns with
  | none => []
  | some host => [⟨.methodReturn m.name, host, m.returnText⟩]

def MethodDecl.slots (host : HostType) (m : MethodDecl) : List Slot :=
  m.receiverSlot host ++ (ParamDecl.slots m.name 0 m.params ++ m.returnSlot)

def ClassDecl.slots (c : ClassDecl) : List Slot :=
  c.fields.map FieldDecl.slot ++ (c.constructors.flatMap (ConstructorDecl.slots c.host) ++
    c.methods.flatMap (MethodDecl.slots c.host))

def Program.slots (p : Program) : List Slot :=
  p.classes.flatMap ClassDecl.slots

/-- A slot and the member that it belongs to. -/
structure Site where
  location : Location
  slot : Slot
deriving DecidableEq, Repr

namespace ClassDecl

variable (c : ClassDecl)

/-- The location of a method. Methods of one name share it, also with a field of this name. -/
def methodLocation (m : MethodDecl) : Location :=
  ⟨c.name, m.name⟩

def fieldSites (fs : List FieldDecl) : List Site :=
  fs.map fun f => ⟨⟨c.name, f.name⟩, f.slot⟩

/-- The sites of constructors, numbered from `index` on. -/
def constructorSites (index : Nat) (ks : List ConstructorDecl) : List Site :=
  (ks.zipIdx index).flatMap fun x =>
    (x.1.slots c.host).map (.mk (Checker.constructorLocation c x.2))

def methodSites (ms : List MethodDecl) : List Site :=
  ms.flatMap fun m => (m.slots c.host).map (.mk (c.methodLocation m))

/-- The sites of the declarations of a class. -/
def declaredSites : List Site :=
  c.fieldSites c.fields ++ (c.constructorSites 0 c.constructors ++ c.methodSites c.methods)

end ClassDecl

/-- The diagnostic is about an annotation that can never be legal where it is written. -/
def Diagnostic.AboutAnnotation (d : Diagnostic) : Prop :=
  d.kind = .typeInvalid ∨ d.kind = .invalidCastQualifier

instance (d : Diagnostic) : Decidable d.AboutAnnotation :=
  inferInstanceAs (Decidable (_ ∨ _))

namespace Checker

/-! ## Traces -/

/-- The report judges the annotations of the sites and records the positions of the slots, each of
them in order, and says nothing else about annotations and positions. -/
inductive Traced (π : Policy) : List Site → List Slot → Report → Prop
  | nothing : Traced π [] [] ∅
  | append {sites sites' : List Site} {slots slots' : List Slot} {r d : Report} :
      Traced π sites slots r → Traced π sites' slots' d →
      Traced π (sites ++ sites') (slots ++ slots') (r ++ d)
  | remarks {l : Location} {ds : List Diagnostic} (h : ∀ x ∈ ds, ¬ x.AboutAnnotation) :
      Traced π [] [] (.ofDiagnostics l ds)
  | judged {l : Location} {s : Slot} {explicit : Option Qualifier}
      (h : π.resolve? s.text = .ok explicit) :
      Traced π [⟨l, s⟩] []
        (.ofDiagnostics l (π.illegality? (.written s.kind s.host explicit)).toList)
  | recorded {s : Slot} {p : Position} (h : s.RecordedAs π p) : Traced π [] [s] (.ofPosition p)

/-- When the computation ends with a value, its report is one of these sites and slots. -/
def Traces {α : Type} (π : Policy) (sites : List Site) (slots : List Slot) (m : Check α) : Prop :=
  ∀ a d, Yields m a d → Traced π sites slots d

section

variable {α β : Type} {π : Policy} {sites sites' : List Site} {slots slots' : List Slot}

theorem traces_pure (a : α) : Traces π [] [] (pure a : Check α) := by
  intro b d h
  rw [(yields_pure.1 h).2]
  exact .nothing

theorem traces_lift (x : Except Fault α) : Traces π [] [] (liftM x : Check α) := by
  intro a d h
  rw [(yields_lift.1 h).2]
  exact .nothing

theorem traces_emitAll {l : Location} {ds : List Diagnostic}
    (h : ∀ x ∈ ds, ¬ x.AboutAnnotation) : Traces π [] [] (emitAll l ds) := by
  intro u d hd
  rw [yields_emitAll.1 hd]
  exact .remarks h

theorem Traces.bind_of_yields {m : Check α} {k : α → Check β} [∀ a, Additive (k a)]
    (hm : Traces π sites slots m) (hk : ∀ a d, Yields m a d → Traces π sites' slots' (k a)) :
    Traces π (sites ++ sites') (slots ++ slots') (m >>= k) := by
  intro b d h
  obtain ⟨a, d₁, d₂, h₁, h₂, rfl⟩ := yields_bind.1 h
  exact (hm a d₁ h₁).append (hk a d₁ h₁ b d₂ h₂)

theorem Traces.bind {m : Check α} {k : α → Check β} [∀ a, Additive (k a)]
    (hm : Traces π sites slots m) (hk : ∀ a, Traces π sites' slots' (k a)) :
    Traces π (sites ++ sites') (slots ++ slots') (m >>= k) :=
  hm.bind_of_yields fun a _ _ => hk a

/-- Steps that visit no site and no slot may follow. -/
theorem Traces.andThen {m : Check α} {k : α → Check β} [∀ a, Additive (k a)]
    (hm : Traces π sites slots m) (hk : ∀ a, Traces π [] [] (k a)) :
    Traces π sites slots (m >>= k) := by
  have h := hm.bind hk
  rwa [List.append_nil, List.append_nil] at h

end

/-! ## The first pass -/

section

variable {π : Policy}

/-- What a declaration adds: the diagnostic about its annotation, if there is one, and its
position. -/
theorem yields_declare {l : Location} {kind : Position.Kind} {host : HostType}
    {text : Option String} {declared : Declared} {d : Report} :
    Yields (declare π l kind host text) declared d ↔
      ∃ explicit, π.resolve? text = .ok explicit ∧
        π.qualifierOf (.written kind host explicit) = .ok declared.qualifier ∧
        declared.position = π.annotate (.written kind host explicit) ∧
        d = .ofDiagnostics l (π.illegality? (.written kind host explicit)).toList ++
          .ofPosition (π.annotate (.written kind host explicit)) := by
  unfold declare validate
  simp only [yields_bind, yields_lift, yields_emitAll, yields_recordPosition, yields_pure,
    Declared.ofPosition_eq_ok]
  constructor
  · rintro ⟨explicit, d₁, d₂, ⟨hexp, rfl⟩, ⟨u, d₃, d₄, rfl, ⟨declared, d₅, d₆, ⟨hpos, rfl⟩,
      ⟨u', d₇, d₈, rfl, ⟨rfl, rfl⟩, rfl⟩, rfl⟩, rfl⟩, rfl⟩
    refine ⟨explicit, hexp, declared.qualifierOf_eq_ok hpos, hpos, ?_⟩
    rw [Report.empty_append, Report.empty_append, Report.append_empty, hpos]
  · rintro ⟨explicit, hexp, -, hpos, rfl⟩
    refine ⟨explicit, _, _, ⟨hexp, rfl⟩, ⟨(), _, _, rfl, ⟨declared, _, _, ⟨hpos, rfl⟩,
      ⟨(), _, _, rfl, ⟨rfl, rfl⟩, rfl⟩, rfl⟩, rfl⟩, ?_⟩
    rw [Report.empty_append, Report.empty_append, Report.append_empty, hpos]

/-- A declaration judges its slot and records it. -/
theorem traces_declare (l : Location) (kind : Position.Kind) (host : HostType)
    (text : Option String) :
    Traces π [⟨l, ⟨kind, host, text⟩⟩] [⟨kind, host, text⟩] (declare π l kind host text) := by
  intro declared d h
  obtain ⟨explicit, hexp, hq, -, rfl⟩ := yields_declare.1 h
  have hjudged : Traced π [⟨l, ⟨kind, host, text⟩⟩] [] _ := .judged hexp
  exact hjudged.append
    (.recorded ⟨⟨explicit, hexp, rfl⟩, declared.qualifier, Policy.qualifierOf_eq_ok.1 hq⟩)

theorem traces_resolveParams (l : Location) (method : String) (index : Nat)
    (ps : List ParamDecl) :
    Traces π ((ParamDecl.slots method index ps).map (.mk l)) (ParamDecl.slots method index ps)
      (resolveParams π l method index ps) := by
  induction ps generalizing index with
  | nil => exact traces_pure _
  | cons p rest ih =>
    unfold resolveParams ParamDecl.slots
    refine (traces_declare l _ p.host p.qualifierText).bind fun declared => ?_
    exact (ih (index + 1)).andThen fun rs => traces_pure _

theorem traces_resolveFields (c : ClassDecl) (fields : OrderedMap String ResolvedField)
    (fs : List FieldDecl) :
    Traces π (c.fieldSites fs) (fs.map FieldDecl.slot) (resolveFields π c fields fs) := by
  induction fs generalizing fields with
  | nil => exact traces_pure _
  | cons f rest ih =>
    have hf : Traces π [⟨⟨c.name, f.name⟩, f.slot⟩] [f.slot] (resolveField π c f) := by
      unfold resolveField
      exact (traces_declare _ f.kind f.host f.qualifierText).andThen fun d => traces_pure _
    unfold resolveFields
    exact hf.bind fun resolved => ih _

theorem traces_resolveConstructors (c : ClassDecl) (index : Nat) (ks : List ConstructorDecl) :
    Traces π (c.constructorSites index ks) (ks.flatMap (ConstructorDecl.slots c.host))
      (resolveConstructors π c index ks) := by
  induction ks generalizing index with
  | nil => exact traces_pure _
  | cons k rest ih =>
    have hk : Traces π ((k.slots c.host).map (.mk (constructorLocation c index)))
        (k.slots c.host) (resolveConstructor π c index k) := by
      unfold resolveConstructor ConstructorDecl.slots
      refine (traces_declare _ _ c.host k.qualifierText).bind fun ret => ?_
      exact (traces_resolveParams _ _ 0 k.params).andThen fun rs => traces_pure _
    unfold resolveConstructors ClassDecl.constructorSites
    rw [List.zipIdx_cons, List.flatMap_cons, List.flatMap_cons]
    exact hk.bind fun resolved => (ih (index + 1)).andThen fun rs => traces_pure _

theorem traces_resolveMethod (c : ClassDecl) (m : MethodDecl) :
    Traces π ((m.slots c.host).map (.mk (c.methodLocation m))) (m.slots c.host)
      (resolveMethod π c m) := by
  have hreceiver : Traces π ((m.receiverSlot c.host).map (.mk (c.methodLocation m)))
      (m.receiverSlot c.host) (resolveReceiver π c m) := by
    unfold resolveReceiver MethodDecl.receiverSlot
    split
    · exact traces_pure _
    · exact (traces_declare _ _ c.host m.receiverText).andThen fun d => traces_pure _
  have hret : Traces π (m.returnSlot.map (.mk (c.methodLocation m))) m.returnSlot
      (resolveReturn π c m) := by
    unfold resolveReturn MethodDecl.returnSlot
    cases m.returns with
    | none => exact traces_pure _
    | some host => exact (traces_declare _ _ host m.returnText).andThen fun d => traces_pure _
  unfold resolveMethod MethodDecl.slots
  rw [List.map_append, List.map_append]
  refine hreceiver.bind fun receiver => (traces_resolveParams _ _ 0 m.params).bind fun params => ?_
  exact hret.andThen fun ret => traces_pure _

theorem traces_resolveMethods (c : ClassDecl) (ms : List MethodDecl) :
    Traces π (c.methodSites ms) (ms.flatMap (MethodDecl.slots c.host))
      (resolveMethods π c ms) := by
  induction ms with
  | nil => exact traces_pure _
  | cons m rest ih =>
    unfold resolveMethods ClassDecl.methodSites
    rw [List.flatMap_cons, List.flatMap_cons]
    exact (traces_resolveMethod c m).bind fun resolved => ih.andThen fun rs => traces_pure _

theorem traces_resolveClass (c : ClassDecl) :
    Traces π c.declaredSites c.slots (resolveClass π c) := by
  unfold resolveClass ClassDecl.declaredSites ClassDecl.slots
  refine (traces_resolveFields c _ c.fields).bind fun fields => ?_
  refine (traces_resolveConstructors c 0 c.constructors).bind fun constructors => ?_
  exact (traces_resolveMethods c c.methods).andThen fun methods => traces_pure _

theorem traces_resolveClasses (tables : Tables) (cs : List ClassDecl) :
    Traces π (cs.flatMap ClassDecl.declaredSites) (cs.flatMap ClassDecl.slots)
      (resolveClasses π tables cs) := by
  induction cs generalizing tables with
  | nil => exact traces_pure _
  | cons c rest ih =>
    unfold resolveClasses
    rw [List.flatMap_cons, List.flatMap_cons]
    exact (traces_resolveClass c).bind fun table => ih _

end

/-! ## Positions -/

theorem Traced.positions {π : Policy} {sites : List Site} {slots : List Slot} {d : Report}
    (h : Traced π sites slots d) : List.Forall₂ (Slot.RecordedAs π) slots d.positions := by
  induction h with
  | nothing => exact .nil
  | append _ _ ih ih' => exact List.rel_append ih ih'
  | remarks => exact .nil
  | judged => exact .nil
  | recorded h => exact .cons h .nil

/-- The first pass records the positions of the slots of all classes, in their order. -/
theorem records_resolveClasses {π : Policy} (tables : Tables) (cs : List ClassDecl)
    (tables' : Tables) (d : Report) (h : Yields (resolveClasses π tables cs) tables' d) :
    List.Forall₂ (Slot.Becomes π) (cs.flatMap ClassDecl.slots) d.positions :=
  (traces_resolveClasses tables cs tables' d h).positions.imp fun _ _ hp => hp.becomes

end Checker

end Mutability
