import Mutability.Proofs.BodyTraces

/-!
# What constructors leave unset

The summary of a constructor is found by walking through its body with the tables at hand. It can
also be read off the text of the class: `ClassDecl.unsetBy` lists the fields that have to be set and
for which the body has no statement that sets them on the receiver itself. The two agree for every
constructor of every program that passes without a fault (`constructor_summaries_exact`).

The walk is followed by the fields it has written (`written_of_checkStmt`, `written_of_checkBody`),
the table of fields by its keys, which stand in the order in which the names first came
(`keys_foldl_insert`).
-/

namespace Mutability

namespace OrderedMap

variable {κ α : Type} [DecidableEq κ]

theorem map_fst_put_of_mem {k : κ} (v : α) {es : List (κ × α)} (h : k ∈ es.map Prod.fst) :
    (put k v es).map Prod.fst = es.map Prod.fst := by
  induction es with
  | nil => cases h
  | cons e rest ih =>
    by_cases hk : e.1 = k
    · simp [put, hk]
    · have hrest : k ∈ rest.map Prod.fst := by
        rw [List.map_cons, List.mem_cons] at h
        exact h.resolve_left (Ne.symm hk)
      simp [put, hk, ih hrest]

theorem keys_insert (m : OrderedMap κ α) (k : κ) (v : α) :
    (m.insert k v).keys = if k ∈ m.keys then m.keys else m.keys ++ [k] := by
  show (put k v m.entries).map Prod.fst = _
  split
  · next h => exact map_fst_put_of_mem v h
  · next h =>
    rw [put_of_not_mem k v h, List.map_append]
    rfl

/-- Keys stand in the order in which they were first inserted. -/
theorem keys_foldl_insert {β : Type} (key : β → κ) (value : β → α) (xs : List β) :
    (xs.foldl (fun m x => m.insert (key x) (value x)) (∅ : OrderedMap κ α)).keys =
      (xs.map key).eraseDups := by
  induction xs using List.reverseRecOn with
  | nil => rfl
  | append_singleton xs x ih =>
    rw [List.foldl_append, List.map_append, List.map_singleton, eraseDups_concat]
    show (insert _ (key x) (value x)).keys = _
    rw [keys_insert, ih]
    simp only [List.mem_eraseDups]

end OrderedMap

/-! ## Fields that have to be set -/

/-- The qualifier of the slot, as it is written or by default. -/
def Slot.qualifier? (π : Policy) (s : Slot) : Option Qualifier :=
  match π.resolve? s.text with
  | .ok explicit => (π.annotate (.written s.kind s.host explicit)).qualifier?
  | .error _ => none

theorem Slot.qualifier?_eq_some {π : Policy} {s : Slot} {q : Qualifier} :
    s.qualifier? π = some q ↔ ∃ explicit, π.resolve? s.text = .ok explicit ∧
      π.qualifierOf (.written s.kind s.host explicit) = .ok q := by
  unfold qualifier?
  cases π.resolve? s.text with
  | error f => simp
  | ok explicit => simp [Policy.qualifierOf_eq_ok]

/-- Each constructor has to set the field. A field annotated `polyMutable` counts as
`receiverDependant`. -/
def FieldDecl.MustBeSet (π : Policy) (f : FieldDecl) : Prop :=
  f.isStatic = false ∧
    (∃ q ∈ f.slot.qualifier? π, q = .immutable ∨ q = .receiverDependant ∨ q = .polyMutable) ∧
    Assignability.ofModifiers f.isFinal f.isAssignable ≠ .assignable

instance (π : Policy) (f : FieldDecl) : Decidable (f.MustBeSet π) :=
  inferInstanceAs (Decidable (_ ∧ _ ∧ _))

theorem FieldDecl.mustBeSet_iff {π : Policy} {f : FieldDecl} :
    f.MustBeSet π ↔ f.isStatic = false ∧
      (∃ explicit q, π.resolve? f.qualifierText = .ok explicit ∧
        π.qualifierOf (.written .instanceField f.host explicit) = .ok q ∧
        (q = .immutable ∨ q = .receiverDependant ∨ q = .polyMutable)) ∧
      Assignability.ofModifiers f.isFinal f.isAssignable ≠ .assignable := by
  refine and_congr_right fun hstatic => and_congr_left fun _ => ?_
  have hkind : f.kind = .instanceField := by
    unfold kind
    rw [hstatic]
    rfl
  rw [← hkind]
  constructor
  · rintro ⟨q, hq, hset⟩
    obtain ⟨explicit, hexp, hq⟩ := Slot.qualifier?_eq_some.1 hq
    exact ⟨explicit, q, hexp, hq, hset⟩
  · rintro ⟨explicit, q, hexp, hq, hset⟩
    exact ⟨q, Slot.qualifier?_eq_some.2 ⟨explicit, hexp, hq⟩, hset⟩

/-- The field that the statement sets on the receiver itself. -/
def Stmt.fieldSet? : Stmt → Option String
  | .fieldWrite .self name _ => some name
  | _ => none

/-- The fields that the body sets on the receiver itself. -/
def ConstructorDecl.fieldsSet (k : ConstructorDecl) : List String :=
  k.body.filterMap Stmt.fieldSet?

theorem Stmt.fieldSet?_eq_some {stmt : Stmt} {name : String} :
    stmt.fieldSet? = some name ↔ ∃ value, stmt = .fieldWrite .self name value := by
  constructor
  · intro h
    unfold fieldSet? at h
    split at h
    · next value =>
      obtain rfl := Option.some.inj h
      exact ⟨value, rfl⟩
    · cases h
  · rintro ⟨value, rfl⟩
    rfl

theorem ConstructorDecl.mem_fieldsSet {k : ConstructorDecl} {name : String} :
    name ∈ k.fieldsSet ↔ ∃ value, Stmt.fieldWrite .self name value ∈ k.body := by
  unfold fieldsSet
  simp only [List.mem_filterMap, Stmt.fieldSet?_eq_some]
  constructor
  · rintro ⟨stmt, hstmt, value, rfl⟩
    exact ⟨value, hstmt⟩
  · rintro ⟨value, hvalue⟩
    exact ⟨_, hvalue, value, rfl⟩

/-- The fields that each constructor has to set and that this one does not, in the order in which
their names are first declared. The last declaration of a name counts. -/
def ClassDecl.unsetBy (π : Policy) (c : ClassDecl) (k : ConstructorDecl) : List String :=
  (c.fields.map FieldDecl.name).eraseDups.filter fun name =>
    (∃ f ∈ c.field? name, f.MustBeSet π) ∧ name ∉ k.fieldsSet

theorem ClassDecl.name_of_field? {c : ClassDecl} {name : String} {f : FieldDecl}
    (h : c.field? name = some f) : f.name = name ∧ f ∈ c.fields := by
  have hname := List.find?_some h
  have hmem := List.mem_of_find?_eq_some h
  exact ⟨by simpa using hname, List.mem_reverse.1 hmem⟩

theorem ClassDecl.mem_unsetBy {π : Policy} {c : ClassDecl} {k : ConstructorDecl} {name : String} :
    name ∈ c.unsetBy π k ↔
      ∃ f, c.field? name = some f ∧ f.MustBeSet π ∧
        ∀ value, Stmt.fieldWrite .self name value ∉ k.body := by
  unfold unsetBy
  rw [List.mem_filter, decide_eq_true_iff, List.mem_eraseDups, ConstructorDecl.mem_fieldsSet,
    not_exists]
  constructor
  · rintro ⟨-, ⟨f, hf, hset⟩, hnone⟩
    exact ⟨f, hf, hset, hnone⟩
  · rintro ⟨f, hf, hset, hnone⟩
    obtain ⟨hname, hmem⟩ := name_of_field? hf
    exact ⟨List.mem_map.2 ⟨f, hmem, hname⟩, ⟨f, hf, hset⟩, hnone⟩

theorem ClassDecl.pairwise_unsetBy (π : Policy) (c : ClassDecl) (k : ConstructorDecl) :
    (c.unsetBy π k).Pairwise fun a b =>
      (c.fields.map FieldDecl.name).idxOf a < (c.fields.map FieldDecl.name).idxOf b :=
  (pairwise_idxOf_eraseDups _).filter _

/-- The summary says of the constructor with a number what its class and its body say. -/
structure Summarizes (π : Policy) (c : ClassDecl) (x : ConstructorDecl × Nat)
    (s : ConstructorSummary) : Prop where
  location : s.location = Checker.constructorLocation c x.2
  mutability : Slot.qualifier? π ⟨.constructorReturn, c.host, x.1.qualifierText⟩ =
    some s.object.mutability
  uninitialized : s.uninitialized = c.unsetBy π x.1
  initialization : s.object.initialization =
    if s.uninitialized = [] then .initialized else .underInitialization 0

section

variable {π : Policy} {c : ClassDecl} {x : ConstructorDecl × Nat} {s : ConstructorSummary}

theorem Summarizes.initialization_eq (h : Summarizes π c x s) :
    s.object.initialization = Checker.finalState (c.unsetBy π x.1) := by
  rw [h.initialization, h.uninitialized]
  unfold Checker.finalState
  simp only [List.isEmpty_iff]

theorem Summarizes.object_eq (h : Summarizes π c x s) :
    some s.object = (Slot.qualifier? π ⟨.constructorReturn, c.host, x.1.qualifierText⟩).map
      (⟨·, Checker.finalState (c.unsetBy π x.1)⟩) := by
  rw [h.mutability, ← h.initialization_eq]
  rfl

/-- A summary is settled by what the class and the constructor say. -/
theorem Summarizes.unique {t : ConstructorSummary} (hs : Summarizes π c x s)
    (ht : Summarizes π c x t) : s = t := by
  have hlocation := hs.location.trans ht.location.symm
  have hobject := Option.some.inj (hs.object_eq.trans ht.object_eq.symm)
  have hunset := hs.uninitialized.trans ht.uninitialized.symm
  obtain ⟨location, object, uninitialized⟩ := s
  subst hlocation hobject hunset
  rfl

end

namespace Checker

variable {P : Diagnostic → Prop} {env : Env}

/-! ## The fields that a body has written -/

theorem written_of_checkStmt {s s' : Scope} {stmt : Stmt} (hs : s.inConstructor = true)
    (h : Within P (checkStmt env s stmt) s') :
    s'.written = stmt.fieldSet?.toList ++ s.written := by
  cases stmt with
  | localVar name host text init =>
    cases init with
    | none =>
      obtain ⟨d, -, rfl⟩ := within_localVar_none.1 h
      rfl
    | some e =>
      obtain ⟨d, value, q, -, -, -, rfl⟩ := within_localVar_some.1 h
      rfl
  | assign target e =>
    obtain ⟨v, value, q, -, -, -, rfl⟩ := within_assign.1 h
    rfl
  | fieldWrite receiver name e =>
    -- Whether the write is reported plays no part, only the form of the receiver does.
    obtain ⟨target, f, value, -, -, -, -, rfl⟩ := within_fieldWrite.1 h
    rw [hs, Bool.true_and]
    cases receiver <;> rfl
  | eval e =>
    obtain ⟨-, rfl⟩ := within_eval.1 h
    rfl
  | exit value =>
    cases value with
    | none =>
      obtain rfl := within_exit_none.1 h
      rfl
    | some e =>
      obtain ⟨value, -, -, rfl⟩ := within_exit_some.1 h
      rfl

theorem written_of_checkBody {s s' : Scope} {body : List Stmt} (hs : s.inConstructor = true)
    (h : Within P (checkBody env s body) s') :
    s'.written = (body.filterMap Stmt.fieldSet?).reverse ++ s.written := by
  induction body generalizing s with
  | nil =>
    obtain rfl := within_checkBody_nil.1 h
    rfl
  | cons stmt rest ih =>
    obtain ⟨next, hstmt, hrest⟩ := within_checkBody_cons.1 h
    have hnext : next.inConstructor = true :=
      (sameMember_of_checkStmt hstmt).inConstructor.trans hs
    rw [ih hnext hrest, written_of_checkStmt hs hstmt, List.filterMap_cons]
    cases stmt.fieldSet? with
    | none => rfl
    | some name => simp

/-! ## Summaries -/

theorem qualifier?_of_declaredAs {π : Policy} {s : Slot} {d : Declared}
    (h : DeclaredAs P π s.kind s.host s.text d) : s.qualifier? π = some d.qualifier := by
  obtain ⟨explicit, hexp, -, hq, -⟩ := h
  exact Slot.qualifier?_eq_some.2 ⟨explicit, hexp, hq⟩

theorem map_name_of_forall₂ {π : Policy} {fs : List FieldDecl} {rs : List ResolvedField}
    (h : List.Forall₂ (FieldDeclaredAs P π) fs rs) :
    rs.map (fun r => r.field.name) = fs.map FieldDecl.name := by
  induction h with
  | nil => rfl
  | cons hr _ ih => rw [List.map_cons, List.map_cons, hr.name_eq, ih]

/-- The table knows which fields have to be set. -/
theorem FieldDeclaredAs.mustBeSet_iff {π : Policy} {f : FieldDecl} {r : ResolvedField}
    (h : FieldDeclaredAs P π f r) :
    f.MustBeSet π ↔ (!r.field.isStatic && r.field.hasInvariant) = true := by
  obtain ⟨d, hd, rfl⟩ := h
  have hq : f.slot.qualifier? π = some d.qualifier := qualifier?_of_declaredAs hd
  unfold FieldDecl.MustBeSet Field.hasInvariant Field.ofDeclaration
  rw [hq]
  cases d.qualifier <;> simp

/-- The fields that the table misses among the written ones are those that the text leaves unset. -/
theorem uninitialized_eq_unsetBy {π : Policy} {c : ClassDecl} {table : ClassTable}
    {k : ConstructorDecl} {written : List String} (h : ClassDeclaredAs P π c table)
    (hw : ∀ name, name ∈ written ↔ name ∈ k.fieldsSet) :
    uninitialized table written = c.unsetBy π k := by
  have hkeys : table.fields.keys = (c.fields.map FieldDecl.name).eraseDups := by
    obtain ⟨rs, hrs, hfields⟩ := h.fields
    rw [hfields, ← map_name_of_forall₂ hrs]
    exact OrderedMap.keys_foldl_insert _ id rs
  have hentry : ∀ e ∈ table.fields.entries, e.2.field.name = e.1 ∧
      ((∃ f ∈ c.field? e.1, f.MustBeSet π) ↔
        (!e.2.field.isStatic && e.2.field.hasInvariant) = true) := by
    intro e he
    have hget := OrderedMap.get?_of_mem_entries he
    rcases h.field e.1 with ⟨-, hnone⟩ | ⟨f, r, hf, hr, hdecl⟩
    · rw [hnone] at hget
      cases hget
    · obtain rfl := Option.some.inj (hr.symm.trans hget)
      refine ⟨hdecl.name_eq.trans (ClassDecl.name_of_field? hf).1, ?_⟩
      rw [hf, ← hdecl.mustBeSet_iff]
      simp
  unfold uninitialized ClassDecl.unsetBy
  rw [← hkeys]
  unfold OrderedMap.keys OrderedMap.values
  rw [List.filter_map, List.filter_map, List.map_map]
  -- Both sides go through the entries now, one by the values and the other by the keys.
  have hsame : ∀ e ∈ table.fields.entries,
      ((fun f : ResolvedField => !f.field.isStatic && f.field.hasInvariant &&
        decide (f.field.name ∉ written)) ∘ Prod.snd) e =
      ((fun name => decide ((∃ f ∈ c.field? name, f.MustBeSet π) ∧ name ∉ k.fieldsSet)) ∘
        Prod.fst) e := by
    intro e he
    obtain ⟨hname, hset⟩ := hentry e he
    rw [Bool.eq_iff_iff]
    simp only [Function.comp_apply, Bool.and_eq_true, decide_eq_true_eq]
    rw [hset, Bool.and_eq_true, hname, hw]
  rw [List.filter_congr hsame]
  refine List.map_congr_left fun e he => ?_
  exact (hentry e (List.mem_filter.1 he).1).1

theorem summarizes_checkConstructor {c : ClassDecl} {table : ClassTable} {k : ConstructorDecl}
    {index : Nat} {summary : ConstructorSummary} (ht : env.tables.get? c.name = some table)
    (hc : ClassDeclaredAs P env.policy c table) (hk : c.constructors[index]? = some k)
    (h : Within P (checkConstructor env c index k) summary) :
    Summarizes env.policy c (k, index) summary := by
  obtain ⟨table', resolved, s', ht', hresolved, -, hbody, rfl⟩ := within_checkConstructor.1 h
  obtain rfl := Option.some.inj (ht'.symm.trans ht)
  have hwritten : ∀ name, name ∈ s'.written ↔ name ∈ k.fieldsSet := by
    intro name
    have hall : s'.written = k.fieldsSet.reverse ++ [] := written_of_checkBody rfl hbody
    rw [hall, List.append_nil, List.mem_reverse]
  have hunset := uninitialized_eq_unsetBy hc hwritten
  have hret : Slot.qualifier? env.policy ⟨.constructorReturn, c.host, k.qualifierText⟩ =
      some resolved.ret := by
    obtain ⟨resolved', hresolved', hdecl⟩ := getElem?_of_forall₂ hc.constructors hk
    obtain rfl := Option.some.inj (hresolved'.symm.trans hresolved)
    obtain ⟨d, hd, hd'⟩ := hdecl.ret
    rw [hd']
    exact qualifier?_of_declaredAs hd
  refine ⟨rfl, hret, hunset, ?_⟩
  show finalState (uninitialized table' s'.written) = _
  unfold finalState
  simp only [List.isEmpty_iff]
  rfl

theorem forall₂_summarizes_checkClass {c : ClassDecl} {table : ClassTable} {d : Report}
    (ht : env.tables.get? c.name = some table)
    (hc : ClassDeclaredAs (fun _ => True) env.policy c table)
    (h : Yields (checkClass env c) () d) :
    List.Forall₂ (Summarizes env.policy c) c.constructors.zipIdx d.constructors := by
  have hplaces : ∀ x ∈ c.constructors.zipIdx, c.constructors[x.2]? = some x.1 :=
    fun x hx => List.mem_zipIdx_iff_getElem?.1 hx
  have hruns := (List.forall₂_and_left _ _).2 ⟨hplaces, (summaries_checkClass h).1⟩
  refine hruns.imp fun x summary hx => ?_
  obtain ⟨hk, e, he⟩ := hx
  exact summarizes_checkConstructor ht hc hk he.within

end Checker

open Checker

/-- The constructors of a program with their classes and numbers, in order. -/
def Program.constructors (p : Program) : List (ClassDecl × ConstructorDecl × Nat) :=
  p.classes.flatMap fun c => c.constructors.zipIdx.map (Prod.mk c)

theorem Program.mem_constructors {p : Program} {x : ClassDecl × ConstructorDecl × Nat}
    (h : x ∈ p.constructors) : x.1 ∈ p.classes ∧ x.1.constructors[x.2.2]? = some x.2.1 := by
  obtain ⟨c, hc, hx⟩ := List.mem_flatMap.1 h
  obtain ⟨y, hy, rfl⟩ := List.mem_map.1 hx
  exact ⟨hc, List.mem_zipIdx_iff_getElem?.1 hy⟩

/-- The report is what the second pass adds for a class: the summaries of its constructors, and the
join of the states in them. -/
structure SummedUp (π : Policy) (c : ClassDecl) (d : Report) : Prop where
  about : d.About c.name
  constructors : List.Forall₂ (Summarizes π c) c.constructors.zipIdx d.constructors
  objects : d.objects = (Report.ofObject? c.name
    (ObjectState.joinAll? (d.constructors.map ConstructorSummary.object))).objects

theorem Program.exists_concat_of_check {π : Policy} {p : Program} {r : Report}
    (hn : (p.classes.map ClassDecl.name).Nodup) (h : p.check π = .ok r) :
    ∃ ds, List.Forall₂ (SummedUp π) p.classes ds ∧
      r.constructors = (Report.concat ds).constructors ∧
      r.objects = (Report.concat ds).objects := by
  obtain ⟨tables, d₁, d₂, hfirst, hsecond, rfl⟩ := Program.check_eq_ok_iff.1 h
  obtain ⟨ds, hds, rfl⟩ := exists_concat_checkClasses hsecond
  have hdeclared := (traces_resolveClasses ∅ p.classes tables d₁ hfirst).ofBodies
  have htables : ∀ c ∈ p.classes, ∃ table, tables.get? c.name = some table ∧
      ClassDeclaredAs (fun _ => True) π c table := fun c hc => get?_of_mem hfirst.within hn hc
  refine ⟨ds, ?_, ?_, ?_⟩
  · refine ((List.forall₂_and_left _ _).2 ⟨htables, hds⟩).imp fun c d hcd => ?_
    obtain ⟨⟨table, ht, hc⟩, hd⟩ := hcd
    exact ⟨staysIn_checkClass c () d hd, forall₂_summarizes_checkClass ht hc hd,
      (summaries_checkClass hd).2⟩
  · rw [Report.append_constructors, hdeclared.constructors, List.nil_append]
  · rw [Report.append_objects, hdeclared.objects, OrderedMap.empty_merge]

theorem forall₂_summarizes_concat {π : Policy} {cs : List ClassDecl} {ds : List Report}
    (h : List.Forall₂ (SummedUp π) cs ds) :
    List.Forall₂ (fun x s => Summarizes π x.1 x.2 s)
      (cs.flatMap fun c => c.constructors.zipIdx.map (Prod.mk c))
      (Report.concat ds).constructors := by
  induction h with
  | nil => exact .nil
  | @cons c d cs ds hc _ ih =>
    have hfirst : List.Forall₂ (fun x s => Summarizes π x.1 x.2 s)
        (c.constructors.zipIdx.map (Prod.mk c)) d.constructors :=
      List.forall₂_map_left_iff.2 hc.constructors
    exact List.rel_append hfirst ih

/-- In the report of a program whose classes have different names there is one summary for each
constructor, in order, and it says what can be read off the text of the class. A field is listed if
its last declaration has to be set and the body has no statement that sets it on the receiver
itself; a write through another expression does not count, and one that is reported does. -/
theorem constructor_summaries_exact (π : Policy) (p : Program) (r : Report)
    (hn : (p.classes.map ClassDecl.name).Nodup) (h : p.check π = .ok r) :
    List.Forall₂ (fun x s => Summarizes π x.1 x.2 s ∧
      (s.uninitialized.Pairwise fun a b =>
        (x.1.fields.map FieldDecl.name).idxOf a < (x.1.fields.map FieldDecl.name).idxOf b) ∧
      ∀ name, name ∈ s.uninitialized ↔
        ∃ f, x.1.field? name = some f ∧ f.isStatic = false ∧
          (∃ explicit q, π.resolve? f.qualifierText = .ok explicit ∧
            π.qualifierOf (.written .instanceField f.host explicit) = .ok q ∧
            (q = .immutable ∨ q = .receiverDependant ∨ q = .polyMutable)) ∧
          Assignability.ofModifiers f.isFinal f.isAssignable ≠ .assignable ∧
          ∀ value, Stmt.fieldWrite .self name value ∉ x.2.1.body)
      p.constructors r.constructors := by
  obtain ⟨ds, hds, hconstructors, -⟩ := Program.exists_concat_of_check hn h
  have hall := forall₂_summarizes_concat hds
  rw [← hconstructors] at hall
  refine hall.imp fun x s hs => ⟨hs, ?_, fun name => ?_⟩
  · rw [hs.uninitialized]
    exact x.1.pairwise_unsetBy π x.2.1
  · rw [hs.uninitialized, ClassDecl.mem_unsetBy]
    refine exists_congr fun f => and_congr_right fun _ => ?_
    rw [FieldDecl.mustBeSet_iff, and_assoc, and_assoc]

/-- A class whose constructor sets one field by a write that does not fit it, and another one only
through a variable. One name is declared twice, and only the later declaration has to be set. -/
def ticketClass : ClassDecl where
  name := "Ticket"
  fields := [
    ⟨"owner", .declared "Ticket", some "@Mutable", false, false, false⟩,
    ⟨"seat", .declared "Ticket", some "@PolyMutable", false, false, false⟩,
    ⟨"owner", .declared "Ticket", some "@Immutable", false, false, false⟩,
    ⟨"note", .declared "Ticket", some "@Immutable", false, false, true⟩,
    ⟨"count", .primitive .int, none, true, false, false⟩,
    ⟨"price", .declared "Ticket", some "@Immutable", false, true, false⟩]
  constructors := [⟨some "@Mutable", [⟨"t", .declared "Ticket", some "@Mutable"⟩],
    [.localVar "me" (.declared "Ticket") none (some .self),
      .fieldWrite (.var "me") "seat" (.var "t"),
      .fieldWrite .self "price" (.var "t")]⟩]
  methods := []

theorem constructor_summaries_exact_ticketClass :
    ∃ r, (Program.mk [ticketClass]).check default = .ok r ∧
      r.constructors = [⟨⟨"Ticket", "<init>[0]"⟩, ⟨.mutable, .underInitialization 0⟩,
        ["owner", "seat"]⟩] := by
  have hok : ((Program.mk [ticketClass]).check default).toOption.isSome = true := by
    decide +kernel
  cases hr : (Program.mk [ticketClass]).check default with
  | error f => rw [hr] at hok; cases hok
  | ok r =>
    have hall := constructor_summaries_exact default ⟨[ticketClass]⟩ r (by decide) hr
    obtain ⟨s, rest, ⟨hs, -⟩, hnil, hconstructors⟩ := List.forall₂_cons_left_iff.1 hall
    obtain rfl := List.forall₂_nil_left_iff.1 hnil
    have hlocation : s.location = ⟨"Ticket", "<init>[0]"⟩ := hs.location.trans (by decide +kernel)
    have hobject : s.object = ⟨.mutable, .underInitialization 0⟩ :=
      Option.some.inj (hs.object_eq.trans (by decide +kernel))
    have hunset : s.uninitialized = ["owner", "seat"] :=
      hs.uninitialized.trans (by decide +kernel)
    refine ⟨r, rfl, ?_⟩
    obtain ⟨location, object, uninitialized⟩ := s
    subst hlocation hobject hunset
    exact hconstructors

end Mutability
