import Mutability.Proofs.Annotation
import Mutability.Proofs.BodyRuns
import Mutability.Proofs.DeclaredPositions

/-!
# Defaults that are written out

Where a field, a constructor return, a receiver or a method return has no annotation, one may be
written that stands for the qualifier which the position has by default anyway. `WritesDefaults`
relates a program to one in which this has been done at some of these places. The two are checked
alike: the first pass makes the same tables of them (`alike_resolveClasses`), since a default is
never illegal where it is given (`illegality?_default`), and the second pass does not look at the
annotations again. What differs is where the qualifiers of these positions come from
(`writing_defaults_out`).
-/

namespace Mutability

/-- The annotation stays as it is, or one is written where there was none, and stands for the
qualifier that the position has by default. -/
inductive WritesDefault (π : Policy) (kind : Position.Kind) (host : HostType) :
    Option String → Option String → Prop
  | keep (text : Option String) : WritesDefault π kind host text text
  | write {text : String} {q : Qualifier} : π.resolve text = .ok q →
      π.qualifierOf (.bare kind host) = .ok q → WritesDefault π kind host none (some text)

/-- In the second field a default may have been written out. -/
def FieldDecl.WritesDefaults (π : Policy) (f f' : FieldDecl) : Prop :=
  ∃ text, WritesDefault π f.kind f.host f.qualifierText text ∧
    f' = { f with qualifierText := text }

/-- In the second constructor a default may have been written out at the return. -/
def ConstructorDecl.WritesDefaults (π : Policy) (host : HostType) (k k' : ConstructorDecl) :
    Prop :=
  ∃ text, WritesDefault π .constructorReturn host k.qualifierText text ∧
    k' = { k with qualifierText := text }

/-- In the second method a default may have been written out at the receiver, unless the method is
static, and at the return, unless it has no value. -/
def MethodDecl.WritesDefaults (π : Policy) (host : HostType) (m m' : MethodDecl) : Prop :=
  ∃ receiverText returnText,
    (if m.isStatic then receiverText = m.receiverText
      else WritesDefault π (.receiver m.name) host m.receiverText receiverText) ∧
    (match m.returns with
      | none => returnText = m.returnText
      | some returns => WritesDefault π (.methodReturn m.name) returns m.returnText returnText) ∧
    m' = { m with receiverText := receiverText, returnText := returnText }

/-- The second class is the first one with some defaults written out. -/
structure ClassDecl.WritesDefaults (π : Policy) (c c' : ClassDecl) : Prop where
  name : c'.name = c.name
  fields : List.Forall₂ (FieldDecl.WritesDefaults π) c.fields c'.fields
  constructors : List.Forall₂ (ConstructorDecl.WritesDefaults π c.host) c.constructors
    c'.constructors
  methods : List.Forall₂ (MethodDecl.WritesDefaults π c.host) c.methods c'.methods

theorem ClassDecl.WritesDefaults.host {π : Policy} {c c' : ClassDecl}
    (h : c.WritesDefaults π c') : c'.host = c.host := by
  unfold ClassDecl.host
  rw [h.name]

/-- The second program is the first one with some defaults written out. -/
def Program.WritesDefaults (π : Policy) (p p' : Program) : Prop :=
  List.Forall₂ (ClassDecl.WritesDefaults π) p.classes p'.classes

/-! ## Defaults are legal -/

/-- A qualifier that is given by default may be written there, unless it is that of `null`. -/
theorem illegality?_default {c : Configuration} (hbottom : c.defaultQualifier ≠ .bottom)
    (hsub : c.defaultQualifier ≠ .substitutable) {kind : Position.Kind}
    (hkind : kind ≠ .nullLiteral) (host : HostType) :
    (Position.written kind host (some (c.defaultFor kind host))).illegality? c = none := by
  unfold Position.illegality? Position.written
  dsimp only [Option.map_some]
  unfold Configuration.defaultFor
  by_cases hi : c.isImplicitlyImmutable host = true
  · simp [hi, Qualifier.isPolymorphic]
  · by_cases hs : kind = .staticField
    · simp [hi, hs, Qualifier.isPolymorphic]
    · rw [if_neg hi, if_neg hs, if_neg hkind]
      cases hq : (if c.objectMethodDefaults then kind.objectMethodQualifier? else none) with
      | none => simp [hi, hs, hbottom, hsub]
      | some q =>
        have hobject : kind.objectMethodQualifier? = some q := by
          split at hq
          · exact hq
          · cases hq
        rcases Position.Kind.objectMethodQualifier?_cases hobject with rfl | rfl
        · simp [hi, hs]
        · simp [hi, hs]

theorem Policy.resolve?_some {π : Policy} {text : String} {q : Qualifier}
    (h : π.resolve text = .ok q) : π.resolve? (some text) = .ok (some q) := by
  simp [resolve?, h, Except.map]

/-! ## Computations that differ in positions only -/

/-- The two reports differ at most in their positions. -/
structure Report.SameFindings (d d' : Report) : Prop where
  diagnostics : d'.diagnostics = d.diagnostics
  constructors : d'.constructors = d.constructors
  objects : d'.objects = d.objects

theorem Report.SameFindings.refl (d : Report) : d.SameFindings d :=
  ⟨rfl, rfl, rfl⟩

theorem Report.SameFindings.append {d₁ d₁' d₂ d₂' : Report} (h₁ : d₁.SameFindings d₁')
    (h₂ : d₂.SameFindings d₂') : (d₁ ++ d₂).SameFindings (d₁' ++ d₂') where
  diagnostics := by
    rw [append_diagnostics, append_diagnostics, h₁.diagnostics, h₂.diagnostics]
  constructors := by
    rw [append_constructors, append_constructors, h₁.constructors, h₂.constructors]
  objects := by rw [append_objects, append_objects, h₁.objects, h₂.objects]

namespace Checker

variable {α β γ δ : Type} {R : α → β → Prop} {S : γ → δ → Prop}

/-- The two computations end in the same fault, or in values that correspond, with reports that
differ at most in their positions. -/
inductive Alike (R : α → β → Prop) (m : Check α) (m' : Check β) : Prop
  | fault {f : Fault} : Fails m f → Fails m' f → Alike R m m'
  | value {a : α} {b : β} {d d' : Report} : Yields m a d → Yields m' b d' → R a b →
      d.SameFindings d' → Alike R m m'

theorem Alike.bind {m : Check α} {m' : Check β} {k : α → Check γ} {k' : β → Check δ}
    [∀ a, Additive (k a)] [∀ b, Additive (k' b)] (h : Alike R m m')
    (hk : ∀ a b, R a b → Alike S (k a) (k' b)) : Alike S (m >>= k) (m' >>= k') := by
  rcases h with ⟨hm, hm'⟩ | ⟨hm, hm', hR, hd⟩
  · exact .fault (fails_bind.2 (Or.inl hm)) (fails_bind.2 (Or.inl hm'))
  · rcases hk _ _ hR with ⟨hk, hk'⟩ | ⟨hk, hk', hS, he⟩
    · exact .fault (fails_bind.2 (Or.inr ⟨_, _, hm, hk⟩)) (fails_bind.2 (Or.inr ⟨_, _, hm', hk'⟩))
    · exact .value (yields_bind.2 ⟨_, _, _, hm, hk, rfl⟩) (yields_bind.2 ⟨_, _, _, hm', hk', rfl⟩)
        hS (hd.append he)

theorem alike_pure {a : α} {b : β} (h : R a b) : Alike R (pure a) (pure b) :=
  .value (yields_pure.2 ⟨rfl, rfl⟩) (yields_pure.2 ⟨rfl, rfl⟩) h (.refl ∅)

theorem alike_refl (m : Check α) : Alike Eq m m := by
  cases h : m.run ∅ with
  | error f => exact .fault h h
  | ok x => exact .value (a := x.1) (d := x.2) h h rfl (.refl x.2)

/-! ## The first pass -/

section FirstPass

variable {cfg : Configuration} (hbottom : cfg.defaultQualifier ≠ .bottom)
  (hsub : cfg.defaultQualifier ≠ .substitutable)

include hbottom hsub

/-- A declaration with its default written out has the same qualifier, and nothing is reported
about it. -/
theorem alike_declare (l : Location) {kind : Position.Kind} (hkind : kind ≠ .nullLiteral)
    {host : HostType} {text text' : Option String}
    (h : WritesDefault (.ofConfiguration cfg) kind host text text') :
    Alike (fun d d' => d.qualifier = d'.qualifier)
      (declare (.ofConfiguration cfg) l kind host text)
      (declare (.ofConfiguration cfg) l kind host text') := by
  cases h with
  | keep =>
    rcases alike_refl (declare (.ofConfiguration cfg) l kind host text) with
      ⟨hf, hf'⟩ | ⟨hy, hy', rfl, hd⟩
    · exact .fault hf hf'
    · exact .value hy hy' rfl hd
  | @write text q hresolve hq =>
    obtain rfl := Except.ok.inj (Policy.qualifierOf_bare.symm.trans hq)
    have hlegal : (Policy.ofConfiguration cfg).illegality?
        (.written kind host (some (cfg.defaultFor kind host))) = none :=
      illegality?_default hbottom hsub hkind host
    have hexplicit : (Policy.ofConfiguration cfg).qualifierOf
        (.written kind host (some (cfg.defaultFor kind host))) =
          .ok (cfg.defaultFor kind host) :=
      (Policy.qualifierOf_of_isExplicit _ rfl).2 rfl
    refine .value
      (a := ⟨_, cfg.defaultFor kind host, Policy.qualifierOf_eq_ok.1 Policy.qualifierOf_bare⟩)
      (b := ⟨_, cfg.defaultFor kind host, Policy.qualifierOf_eq_ok.1 hexplicit⟩)
      (yields_declare.2 ⟨none, rfl, Policy.qualifierOf_bare, rfl, rfl⟩)
      (yields_declare.2 ⟨some _, Policy.resolve?_some hresolve, hexplicit, rfl, rfl⟩) rfl ?_
    refine Report.SameFindings.append ?_ ⟨rfl, rfl, rfl⟩
    rw [hlegal]
    exact .refl _

theorem alike_resolveFields {c c' : ClassDecl} (hname : c'.name = c.name)
    {fs fs' : List FieldDecl}
    (h : List.Forall₂ (FieldDecl.WritesDefaults (.ofConfiguration cfg)) fs fs')
    (fields : OrderedMap String ResolvedField) :
    Alike Eq (resolveFields (.ofConfiguration cfg) c fields fs)
      (resolveFields (.ofConfiguration cfg) c' fields fs') := by
  induction h generalizing fields with
  | nil => exact alike_pure rfl
  | @cons f f' rest rest' hf _ ih =>
    obtain ⟨text, htext, rfl⟩ := hf
    have hkind : f.kind ≠ .nullLiteral := by
      unfold FieldDecl.kind
      split <;> decide
    have hfield : Alike Eq (resolveField (.ofConfiguration cfg) c f)
        (resolveField (.ofConfiguration cfg) c' { f with qualifierText := text }) := by
      unfold resolveField
      rw [hname]
      refine (alike_declare hbottom hsub _ hkind htext).bind fun d d' hd => alike_pure ?_
      rw [hd]
    unfold resolveFields
    refine hfield.bind fun resolved resolved' hr => ?_
    subst hr
    exact ih _

theorem alike_resolveConstructors {c c' : ClassDecl} (hname : c'.name = c.name)
    {ks ks' : List ConstructorDecl}
    (h : List.Forall₂ (ConstructorDecl.WritesDefaults (.ofConfiguration cfg) c.host) ks ks')
    (index : Nat) :
    Alike Eq (resolveConstructors (.ofConfiguration cfg) c index ks)
      (resolveConstructors (.ofConfiguration cfg) c' index ks') := by
  induction h generalizing index with
  | nil => exact alike_pure rfl
  | @cons k k' rest rest' hk _ ih =>
    obtain ⟨text, htext, rfl⟩ := hk
    have hconstructor : Alike Eq (resolveConstructor (.ofConfiguration cfg) c index k)
        (resolveConstructor (.ofConfiguration cfg) c' index { k with qualifierText := text }) := by
      unfold resolveConstructor constructorLocation ClassDecl.host
      rw [hname]
      refine (alike_declare hbottom hsub _ (by decide) htext).bind fun d d' hd => ?_
      refine (alike_refl _).bind fun params params' hparams => alike_pure ?_
      rw [hd, hparams]
    unfold resolveConstructors
    refine hconstructor.bind fun resolved resolved' hr => ?_
    refine (ih (index + 1)).bind fun rs rs' hrs => alike_pure ?_
    rw [hr, hrs]

theorem alike_resolveMethod {c c' : ClassDecl} (hname : c'.name = c.name) {m m' : MethodDecl}
    (h : m.WritesDefaults (.ofConfiguration cfg) c.host m') :
    Alike Eq (resolveMethod (.ofConfiguration cfg) c m)
      (resolveMethod (.ofConfiguration cfg) c' m') := by
  obtain ⟨receiverText, returnText, hreceiver, hreturn, rfl⟩ := h
  have hfirst : Alike Eq (resolveReceiver (.ofConfiguration cfg) c m)
      (resolveReceiver (.ofConfiguration cfg) c'
        { m with receiverText := receiverText, returnText := returnText }) := by
    unfold resolveReceiver ClassDecl.host
    rw [hname]
    by_cases hs : m.isStatic = true
    · rw [if_pos hs, if_pos hs]
      exact alike_pure rfl
    · rw [if_neg hs] at hreceiver ⊢
      rw [if_neg hs]
      refine (alike_declare hbottom hsub _ (by simp) hreceiver).bind fun d d' hd => alike_pure ?_
      rw [hd]
  have hlast : Alike Eq (resolveReturn (.ofConfiguration cfg) c m)
      (resolveReturn (.ofConfiguration cfg) c'
        { m with receiverText := receiverText, returnText := returnText }) := by
    unfold resolveReturn
    rw [hname]
    cases hr : m.returns with
    | none => exact alike_pure rfl
    | some host =>
      rw [hr] at hreturn
      refine (alike_declare hbottom hsub _ (by simp) hreturn).bind fun d d' hd => alike_pure hd
  unfold resolveMethod
  rw [hname]
  refine hfirst.bind fun receiver receiver' hrec => ?_
  refine (alike_refl _).bind fun params params' hparams => ?_
  refine hlast.bind fun ret ret' hret => alike_pure ?_
  rw [hrec, hparams, hret]

theorem alike_resolveMethods {c c' : ClassDecl} (hname : c'.name = c.name)
    {ms ms' : List MethodDecl}
    (h : List.Forall₂ (MethodDecl.WritesDefaults (.ofConfiguration cfg) c.host) ms ms') :
    Alike Eq (resolveMethods (.ofConfiguration cfg) c ms)
      (resolveMethods (.ofConfiguration cfg) c' ms') := by
  induction h with
  | nil => exact alike_pure rfl
  | cons hm _ ih =>
    unfold resolveMethods
    refine (alike_resolveMethod hbottom hsub hname hm).bind fun resolved resolved' hr => ?_
    refine ih.bind fun rs rs' hrs => alike_pure ?_
    rw [hr, hrs]

theorem alike_resolveClasses {cs cs' : List ClassDecl}
    (h : List.Forall₂ (ClassDecl.WritesDefaults (.ofConfiguration cfg)) cs cs')
    (tables : Tables) :
    Alike Eq (resolveClasses (.ofConfiguration cfg) tables cs)
      (resolveClasses (.ofConfiguration cfg) tables cs') := by
  induction h generalizing tables with
  | nil => exact alike_pure rfl
  | @cons c c' rest rest' hc _ ih =>
    have hclass : Alike Eq (resolveClass (.ofConfiguration cfg) c)
        (resolveClass (.ofConfiguration cfg) c') := by
      unfold resolveClass
      refine (alike_resolveFields hbottom hsub hc.name hc.fields ∅).bind fun fs fs' hfs => ?_
      refine (alike_resolveConstructors hbottom hsub hc.name hc.constructors 0).bind ?_
      intro ks ks' hks
      refine (alike_resolveMethods hbottom hsub hc.name hc.methods).bind fun ms ms' hms => ?_
      exact alike_pure (by rw [hfs, hks, hms])
    unfold resolveClasses
    rw [hc.name]
    refine hclass.bind fun table table' ht => ?_
    subst ht
    exact ih _

end FirstPass

/-! ## The second pass -/

section SecondPass

variable {π : Policy} {env : Env} {c c' : ClassDecl}

theorem checkConstructors_congr (hname : c'.name = c.name) {host : HostType}
    {ks ks' : List ConstructorDecl}
    (h : List.Forall₂ (ConstructorDecl.WritesDefaults π host) ks ks') (index : Nat) :
    checkConstructors env c' index ks' = checkConstructors env c index ks := by
  induction h generalizing index with
  | nil => rfl
  | @cons k k' rest rest' hk _ ih =>
    obtain ⟨text, -, rfl⟩ := hk
    have hfirst : checkConstructor env c' index { k with qualifierText := text } =
        checkConstructor env c index k := by
      unfold checkConstructor constructorLocation
      rw [hname]
    unfold checkConstructors
    rw [hfirst, ih]

theorem checkMethods_congr (hname : c'.name = c.name) {host : HostType}
    {ms ms' : List MethodDecl} (h : List.Forall₂ (MethodDecl.WritesDefaults π host) ms ms')
    (index : Nat) : checkMethods env c' index ms' = checkMethods env c index ms := by
  induction h generalizing index with
  | nil => rfl
  | @cons m m' rest rest' hm _ ih =>
    obtain ⟨receiverText, returnText, -, -, rfl⟩ := hm
    have hfirst : checkMethod env c' index
        { m with receiverText := receiverText, returnText := returnText } =
          checkMethod env c index m := by
      unfold checkMethod
      rw [hname]
    unfold checkMethods
    rw [hfirst, ih]

/-- With the tables made, annotations of declarations are not looked at again. -/
theorem checkClasses_congr {cs cs' : List ClassDecl}
    (h : List.Forall₂ (ClassDecl.WritesDefaults π) cs cs') :
    checkClasses env cs' = checkClasses env cs := by
  induction h with
  | nil => rfl
  | @cons c c' rest rest' hc _ ih =>
    have hclass : checkClass env c' = checkClass env c := by
      rw [checkClass_eq, checkClass_eq, checkConstructors_congr hc.name hc.constructors,
        checkMethods_congr hc.name hc.methods, hc.name]
    unfold checkClasses
    rw [hclass, ih]

end SecondPass

end Checker

/-! ## Positions -/

/-- The second slot is the first one, where a default may have been written out. -/
def Slot.WritesDefault (π : Policy) (s s' : Slot) : Prop :=
  ∃ text, Mutability.WritesDefault π s.kind s.host s.text text ∧ s' = { s with text := text }

theorem Slot.WritesDefault.refl {π : Policy} (s : Slot) : s.WritesDefault π s :=
  ⟨s.text, .keep _, rfl⟩

theorem Slot.forall₂_writesDefault_refl {π : Policy} (slots : List Slot) :
    List.Forall₂ (Slot.WritesDefault π) slots slots :=
  List.forall₂_same.2 fun s _ => .refl s

theorem FieldDecl.WritesDefaults.slot {π : Policy} {f f' : FieldDecl}
    (h : f.WritesDefaults π f') : f.slot.WritesDefault π f'.slot := by
  obtain ⟨text, htext, rfl⟩ := h
  exact ⟨text, htext, rfl⟩

theorem ConstructorDecl.WritesDefaults.slots {π : Policy} {host : HostType}
    {k k' : ConstructorDecl} (h : k.WritesDefaults π host k') :
    List.Forall₂ (Slot.WritesDefault π) (k.slots host) (k'.slots host) := by
  obtain ⟨text, htext, rfl⟩ := h
  exact .cons ⟨text, htext, rfl⟩ (Slot.forall₂_writesDefault_refl _)

theorem MethodDecl.WritesDefaults.slots {π : Policy} {host : HostType} {m m' : MethodDecl}
    (h : m.WritesDefaults π host m') :
    List.Forall₂ (Slot.WritesDefault π) (m.slots host) (m'.slots host) := by
  obtain ⟨receiverText, returnText, hreceiver, hreturn, rfl⟩ := h
  unfold MethodDecl.slots
  refine List.rel_append ?_ (List.rel_append (Slot.forall₂_writesDefault_refl _) ?_)
  · unfold MethodDecl.receiverSlot
    by_cases hs : m.isStatic = true
    · rw [if_pos hs, if_pos hs]
      exact .nil
    · rw [if_neg hs] at hreceiver
      rw [if_neg hs, if_neg hs]
      exact .cons ⟨receiverText, hreceiver, rfl⟩ .nil
  · unfold MethodDecl.returnSlot
    cases hr : m.returns with
    | none => exact .nil
    | some returns =>
      rw [hr] at hreturn
      exact .cons ⟨returnText, hreturn, rfl⟩ .nil

theorem ClassDecl.WritesDefaults.slots {π : Policy} {c c' : ClassDecl}
    (h : c.WritesDefaults π c') :
    List.Forall₂ (Slot.WritesDefault π) c.slots c'.slots := by
  unfold ClassDecl.slots
  rw [h.host]
  refine List.rel_append ?_ (List.rel_append ?_ ?_)
  · exact List.forall₂_map_left_iff.2 (List.forall₂_map_right_iff.2
      (h.fields.imp fun f f' hf => hf.slot))
  · exact List.rel_flatMap h.constructors fun k k' hk => hk.slots
  · exact List.rel_flatMap h.methods fun m m' hm => hm.slots

theorem Program.WritesDefaults.slots {π : Policy} {p p' : Program} (h : p.WritesDefaults π p') :
    List.Forall₂ (Slot.WritesDefault π) p.slots p'.slots :=
  List.rel_flatMap h fun _ _ hc => hc.slots

/-- A slot leaves the same position, or one whose qualifier is written now and was given by default
before. -/
theorem Slot.WritesDefault.becomes {cfg : Configuration} {s s' : Slot} {x x' : Position}
    (h : s.WritesDefault (.ofConfiguration cfg) s') (hx : s.Becomes (.ofConfiguration cfg) x)
    (hx' : s'.Becomes (.ofConfiguration cfg) x') :
    (s' = s ∧ x' = x) ∨ ∃ kind host text q, s = ⟨kind, host, none⟩ ∧
      s' = ⟨kind, host, some text⟩ ∧ x = ⟨kind, host, some ⟨q, .defaulted⟩⟩ ∧
      x' = ⟨kind, host, some ⟨q, .explicit⟩⟩ := by
  obtain ⟨kind, host, text⟩ := s
  obtain ⟨text', htext, rfl⟩ := h
  cases htext with
  | keep => exact Or.inl ⟨rfl, hx'.unique hx⟩
  | @write text q hresolve hq =>
    obtain rfl := Except.ok.inj (Policy.qualifierOf_bare.symm.trans hq)
    refine Or.inr ⟨kind, host, text, cfg.defaultFor kind host, rfl, rfl, ?_, ?_⟩
    · obtain ⟨explicit, hexp, rfl⟩ := hx
      obtain rfl := Except.ok.inj hexp
      exact Policy.annotate_bare cfg kind host
    · obtain ⟨explicit, hexp, rfl⟩ := hx'
      obtain rfl := Except.ok.inj (hexp.symm.trans (Policy.resolve?_some hresolve))
      exact Policy.annotate_of_isExplicit _ rfl

/-- The positions of two programs, place by place, where those that belong to no slot are the
same. -/
theorem positions_of_writesDefault {cfg : Configuration} {slots slots' : List Slot}
    {xs xs' rest : List Position}
    (h : List.Forall₂ (Slot.WritesDefault (.ofConfiguration cfg)) slots slots')
    (hx : List.Forall₂ (Slot.Becomes (.ofConfiguration cfg)) slots xs)
    (hx' : List.Forall₂ (Slot.Becomes (.ofConfiguration cfg)) slots' xs') (i : Nat) :
    (slots'[i]? = slots[i]? ∧ (xs' ++ rest)[i]? = (xs ++ rest)[i]?) ∨
      ∃ kind host text q, slots[i]? = some ⟨kind, host, none⟩ ∧
        slots'[i]? = some ⟨kind, host, some text⟩ ∧
        (xs ++ rest)[i]? = some ⟨kind, host, some ⟨q, .defaulted⟩⟩ ∧
        (xs' ++ rest)[i]? = some ⟨kind, host, some ⟨q, .explicit⟩⟩ := by
  have hlen := hx.length_eq
  have hlen' := hx'.length_eq
  have hslots := h.length_eq
  by_cases hi : i < slots.length
  · rw [List.getElem?_append_left (by omega), List.getElem?_append_left (by omega)]
    have hs : slots[i]? = some slots[i] := List.getElem?_eq_getElem hi
    obtain ⟨s', hs', hwrites⟩ := getElem?_of_forall₂ h hs
    obtain ⟨x, hxi, hbecomes⟩ := getElem?_of_forall₂ hx hs
    obtain ⟨x', hxi', hbecomes'⟩ := getElem?_of_forall₂ hx' hs'
    rw [hs, hs', hxi, hxi']
    rcases hwrites.becomes hbecomes hbecomes' with
      ⟨heq, rfl⟩ | ⟨kind, host, text, q, h₁, h₂, h₃, h₄⟩
    · exact Or.inl ⟨by rw [heq], rfl⟩
    · exact Or.inr ⟨kind, host, text, q, by rw [h₁], by rw [h₂], by rw [h₃], by rw [h₄]⟩
  · left
    rw [List.getElem?_append_right (by omega), List.getElem?_append_right (by omega), ← hlen,
      ← hlen', ← hslots, List.getElem?_eq_none (by omega), List.getElem?_eq_none (by omega)]
    exact ⟨rfl, rfl⟩

/-! ## Programs -/

open Checker

/-- Writing defaults out changes nothing but the origins of the positions at which it is done: the
program with them ends in the same fault, or has the same report up to these. -/
theorem writing_defaults_out (cfg : Configuration) (hbottom : cfg.defaultQualifier ≠ .bottom)
    (hsub : cfg.defaultQualifier ≠ .substitutable) (p p' : Program)
    (h : p.WritesDefaults (.ofConfiguration cfg) p') :
    (∃ f, p.check (.ofConfiguration cfg) = .error f ∧
      p'.check (.ofConfiguration cfg) = .error f) ∨
    ∃ r r', p.check (.ofConfiguration cfg) = .ok r ∧ p'.check (.ofConfiguration cfg) = .ok r' ∧
      r'.diagnostics = r.diagnostics ∧ r'.constructors = r.constructors ∧
      r'.objects = r.objects ∧
      ∀ i : Nat, (p'.slots[i]? = p.slots[i]? ∧ r'.positions[i]? = r.positions[i]?) ∨
        ∃ kind host text q, p.slots[i]? = some ⟨kind, host, none⟩ ∧
          p'.slots[i]? = some ⟨kind, host, some text⟩ ∧
          r.positions[i]? = some ⟨kind, host, some ⟨q, .defaulted⟩⟩ ∧
          r'.positions[i]? = some ⟨kind, host, some ⟨q, .explicit⟩⟩ := by
  cases alike_resolveClasses hbottom hsub h ∅ with
  | fault hf hf' =>
    left
    exact ⟨_, Program.check_eq_error.2 (fails_bind.2 (Or.inl hf)),
      Program.check_eq_error.2 (fails_bind.2 (Or.inl hf'))⟩
  | @value tables tables' d d' hy hy' htables hfindings =>
    subst htables
    have hsecond : checkClasses ⟨.ofConfiguration cfg, tables⟩ p'.classes =
        checkClasses ⟨.ofConfiguration cfg, tables⟩ p.classes := checkClasses_congr h
    cases hz : (checkClasses ⟨.ofConfiguration cfg, tables⟩ p.classes).run ∅ with
    | error f =>
      left
      refine ⟨f, Program.check_eq_error.2 (fails_bind.2 (Or.inr ⟨_, _, hy, hz⟩)),
        Program.check_eq_error.2 (fails_bind.2 (Or.inr ⟨_, _, hy', ?_⟩))⟩
      rw [hsecond]
      exact hz
    | ok x =>
      right
      have hsame := hfindings.append (Report.SameFindings.refl x.2)
      refine ⟨d ++ x.2, d' ++ x.2, Program.check_eq_ok_iff.2 ⟨_, _, _, hy, hz, rfl⟩,
        Program.check_eq_ok_iff.2 ⟨_, _, _, hy', ?_, rfl⟩, hsame.diagnostics,
        hsame.constructors, hsame.objects, fun i => ?_⟩
      · rw [hsecond]
        exact hz
      · rw [Report.append_positions, Report.append_positions]
        exact positions_of_writesDefault h.slots (records_resolveClasses ∅ p.classes _ _ hy)
          (records_resolveClasses ∅ p'.classes _ _ hy') i

/-- A class with annotations at its field, its constructor and the receiver of a method. -/
def shelfClass (fieldText constructorText receiverText : Option String) : ClassDecl where
  name := "Shelf"
  fields := [⟨"size", .primitive .int, fieldText, false, false, false⟩]
  constructors := [⟨constructorText, [], [.fieldWrite .self "size" (.literal (.primitive .int))]⟩]
  methods := [
    { name := "equals", isStatic := false, receiverText := receiverText
      params := [⟨"other", .declared "Object", none⟩]
      returns := some (.primitive .boolean), returnText := none
      body := [.exit (some (.literal (.primitive .boolean)))] }]

/-- The receiver of `equals` is `readonly` by default. Writing this, and the defaults of the field
and of the constructor, leaves a report that differs in three origins. -/
theorem writing_defaults_out_shelfClass :
    ∃ r r', (Program.mk [shelfClass none none none]).check (.ofConfiguration .standard) = .ok r ∧
      (Program.mk [shelfClass (some "@Immutable") (some "Mutable") (some "@Readonly")]).check
        (.ofConfiguration .standard) = .ok r' ∧
      r'.diagnostics = r.diagnostics ∧ r'.objects = r.objects ∧
      r.positions[2]? = some ⟨.receiver "equals", .declared "Shelf", some ⟨.readonly, .defaulted⟩⟩ ∧
      r'.positions[2]? = some ⟨.receiver "equals", .declared "Shelf",
        some ⟨.readonly, .explicit⟩⟩ := by
  have hwrites : (Program.mk [shelfClass none none none]).WritesDefaults
      (.ofConfiguration .standard)
      ⟨[shelfClass (some "@Immutable") (some "Mutable") (some "@Readonly")]⟩ := by
    refine .cons ⟨rfl, .cons ⟨some "@Immutable", .write (q := .immutable) ?_ ?_, rfl⟩ .nil,
      .cons ⟨some "Mutable", .write (q := .mutable) ?_ ?_, rfl⟩ .nil,
      .cons ⟨some "@Readonly", none, .write (q := .readonly) ?_ ?_, .keep none, rfl⟩ .nil⟩ .nil
    all_goals decide +kernel
  have hok : ((Program.mk [shelfClass none none none]).check
      (.ofConfiguration .standard)).toOption.map (fun r => r.positions[2]?) =
        some (some ⟨.receiver "equals", .declared "Shelf", some ⟨.readonly, .defaulted⟩⟩) := by
    decide +kernel
  rcases writing_defaults_out .standard (by decide) (by decide) _ _ hwrites with
    ⟨f, hf, -⟩ | ⟨r, r', hr, hr', hdiagnostics, -, hobjects, hpositions⟩
  · rw [hf] at hok
    cases hok
  · rw [hr] at hok
    have hdefault : r.positions[2]? = some ⟨.receiver "equals", .declared "Shelf",
        some ⟨.readonly, .defaulted⟩⟩ := Option.some.inj hok
    refine ⟨r, r', hr, hr', hdiagnostics, hobjects, hdefault, ?_⟩
    rcases hpositions 2 with ⟨hslots, -⟩ | ⟨kind, host, text, q, -, -, hr₂, hr₂'⟩
    · exact absurd hslots (by decide)
    · rw [hdefault] at hr₂
      cases hr₂
      exact hr₂'

end Mutability
