import Mutability.Proofs.CheckerSteps
import Mutability.Proofs.Lists

/-!
# The tables of the first pass

What the first pass puts into the tables, read off the declarations. `DeclaredAs P` relates a
declared position to the qualifier it ends up with, `P` being what may be reported about its
annotation; the tables of fields, constructors, methods and classes follow from it member by member.
A run of the first pass that reports nothing outside `P` is the same thing as a table that stands in
these relations to the program (`within_resolveClass`).

Looked up by name, a table is that of a class with this name (`exists_class_of_get?`), and with
names that differ it is that of the class itself (`get?_of_mem`).
-/

namespace Mutability

/-- The role of a field. -/
def FieldDecl.kind (f : FieldDecl) : Position.Kind :=
  if f.isStatic then .staticField else .instanceField

namespace ClassDecl

/-- The declaration of a field that stands: of several with one name it is the last. -/
def field? (c : ClassDecl) (name : String) : Option FieldDecl :=
  c.fields.reverse.find? fun f => f.name = name

/-- The first constructor with this number of parameters. -/
def constructor? (c : ClassDecl) (arity : Nat) : Option ConstructorDecl :=
  c.constructors.find? fun k => k.params.length = arity

/-- The first method with this name and number of parameters. -/
def method? (c : ClassDecl) (name : String) (arity : Nat) : Option MethodDecl :=
  c.methods.find? fun m => m.name = name ∧ m.params.length = arity

end ClassDecl

namespace Checker

section

variable (P : Diagnostic → Prop) (π : Policy)

/-- A declared position: its annotation is known, whatever is reported about it satisfies `P`, and
defaulting gives it a qualifier. -/
def DeclaredAs (kind : Position.Kind) (host : HostType) (text : Option String) (d : Declared) :
    Prop :=
  ∃ explicit, π.resolve? text = .ok explicit ∧
    (∀ x ∈ π.illegality? (.written kind host explicit), P x) ∧
    π.qualifierOf (.written kind host explicit) = .ok d.qualifier ∧
    d.position = π.annotate (.written kind host explicit)

/-- The parameters of a method, numbered from an index on. -/
inductive ParamsDeclaredAs (method : String) : Nat → List ParamDecl → List ResolvedParam → Prop
  | nil {index : Nat} : ParamsDeclaredAs method index [] []
  | cons {index : Nat} {p : ParamDecl} {d : Declared} {ps : List ParamDecl}
      {rs : List ResolvedParam} :
      DeclaredAs P π (.parameter method index) p.host p.qualifierText d →
      ParamsDeclaredAs method (index + 1) ps rs →
      ParamsDeclaredAs method index (p :: ps) (⟨p.name, d⟩ :: rs)

/-- A field of a table. -/
def FieldDeclaredAs (f : FieldDecl) (resolved : ResolvedField) : Prop :=
  ∃ d, DeclaredAs P π f.kind f.host f.qualifierText d ∧
    resolved = ⟨.ofDeclaration f.name d.qualifier (.ofModifiers f.isFinal f.isAssignable)
      f.isStatic, f.host⟩

/-- A constructor of a table. -/
structure ConstructorDeclaredAs (c : ClassDecl) (k : ConstructorDecl)
    (resolved : ResolvedConstructor) : Prop where
  ret : ∃ d, DeclaredAs P π .constructorReturn c.host k.qualifierText d ∧
    resolved.ret = d.qualifier
  params : ParamsDeclaredAs P π constructorName 0 k.params resolved.params

/-- The receiver of a method of a table. -/
def ReceiverDeclaredAs (c : ClassDecl) (m : MethodDecl) : Option Qualifier → Prop
  | none => m.isStatic = true
  | some q => m.isStatic = false ∧
    ∃ d, DeclaredAs P π (.receiver m.name) c.host m.receiverText d ∧ q = d.qualifier

/-- The return of a method of a table. -/
def ReturnDeclaredAs (m : MethodDecl) (q : Qualifier) : Prop :=
  match m.returns with
  | none => q = .bottom
  | some host => ∃ d, DeclaredAs P π (.methodReturn m.name) host m.returnText d ∧ q = d.qualifier

/-- A method of a table. -/
structure MethodDeclaredAs (c : ClassDecl) (m : MethodDecl) (resolved : ResolvedMethod) :
    Prop where
  name : resolved.signature.name = m.name
  isStatic : resolved.signature.isStatic = m.isStatic
  receiver : ReceiverDeclaredAs P π c m resolved.signature.receiver
  params : ParamsDeclaredAs P π m.name 0 m.params resolved.params
  qualifiers : resolved.signature.params = resolved.params.map fun p => p.declared.qualifier
  ret : ReturnDeclaredAs P π m resolved.signature.ret
  returns : resolved.returns = m.returns

/-- The table of a class. -/
structure ClassDeclaredAs (c : ClassDecl) (table : ClassTable) : Prop where
  fields : ∃ rs, List.Forall₂ (FieldDeclaredAs P π) c.fields rs ∧
    table.fields = rs.foldl (fun m r => m.insert r.field.name r) ∅
  constructors : List.Forall₂ (ConstructorDeclaredAs P π c) c.constructors table.constructors
  methods : List.Forall₂ (MethodDeclaredAs P π c) c.methods table.methods

end

variable {P : Diagnostic → Prop} {π : Policy}

/-! ## Declarations -/

theorem within_declare {l : Location} {kind : Position.Kind} {host : HostType}
    {text : Option String} {d : Declared} :
    Within P (declare π l kind host text) d ↔ DeclaredAs P π kind host text d := by
  unfold declare validate
  simp only [within_bind, within_lift, within_emitAll, within_pure, Option.mem_toList,
    within_recordPosition, true_and, exists_const, Declared.ofPosition_eq_ok]
  constructor
  · rintro ⟨w, hw, hP, d, hd, rfl⟩
    exact ⟨w, hw, hP, d.qualifierOf_eq_ok hd, hd⟩
  · rintro ⟨w, hw, hP, -, hd⟩
    exact ⟨w, hw, hP, d, hd, rfl⟩

theorem within_resolveParams {l : Location} {method : String} {index : Nat} {ps : List ParamDecl}
    {rs : List ResolvedParam} :
    Within P (resolveParams π l method index ps) rs ↔
      ParamsDeclaredAs P π method index ps rs := by
  induction ps generalizing index rs with
  | nil =>
    unfold resolveParams
    rw [within_pure]
    constructor
    · rintro rfl; exact .nil
    · intro h; cases h; rfl
  | cons p rest ih =>
    unfold resolveParams
    simp only [within_bind, within_declare, within_pure, ih]
    constructor
    · rintro ⟨d, hd, rs', hrs, rfl⟩
      exact .cons hd hrs
    · intro h
      cases h with
      | cons hd hrs => exact ⟨_, hd, _, hrs, rfl⟩

theorem within_resolveField {c : ClassDecl} {f : FieldDecl} {resolved : ResolvedField} :
    Within P (resolveField π c f) resolved ↔ FieldDeclaredAs P π f resolved := by
  unfold resolveField
  simp only [within_bind, within_declare, within_pure]
  exact Iff.rfl

theorem FieldDeclaredAs.name_eq {f : FieldDecl} {resolved : ResolvedField}
    (h : FieldDeclaredAs P π f resolved) : resolved.field.name = f.name := by
  obtain ⟨d, -, rfl⟩ := h
  rfl

theorem FieldDeclaredAs.host_eq {f : FieldDecl} {resolved : ResolvedField}
    (h : FieldDeclaredAs P π f resolved) : resolved.host = f.host := by
  obtain ⟨d, -, rfl⟩ := h
  rfl

theorem within_resolveFields {c : ClassDecl} {fields fields' : OrderedMap String ResolvedField}
    {fs : List FieldDecl} :
    Within P (resolveFields π c fields fs) fields' ↔
      ∃ rs, List.Forall₂ (FieldDeclaredAs P π) fs rs ∧
        fields' = rs.foldl (fun m r => m.insert r.field.name r) fields := by
  induction fs generalizing fields with
  | nil =>
    unfold resolveFields
    rw [within_pure]
    constructor
    · rintro rfl
      exact ⟨[], .nil, rfl⟩
    · rintro ⟨rs, hrs, rfl⟩
      cases hrs
      rfl
  | cons f rest ih =>
    unfold resolveFields
    simp only [within_bind, within_resolveField, ih]
    constructor
    · rintro ⟨r, hr, rs, hrs, rfl⟩
      refine ⟨r :: rs, .cons hr hrs, ?_⟩
      rw [List.foldl_cons, hr.name_eq]
    · rintro ⟨rs, hrs, rfl⟩
      cases hrs with
      | cons hr hrs =>
        refine ⟨_, hr, _, hrs, ?_⟩
        rw [List.foldl_cons, hr.name_eq]

theorem within_resolveConstructor {c : ClassDecl} {index : Nat} {k : ConstructorDecl}
    {resolved : ResolvedConstructor} :
    Within P (resolveConstructor π c index k) resolved ↔
      ConstructorDeclaredAs P π c k resolved := by
  unfold resolveConstructor
  simp only [within_bind, within_declare, within_resolveParams, within_pure]
  constructor
  · rintro ⟨d, hd, rs, hrs, rfl⟩
    exact ⟨⟨d, hd, rfl⟩, hrs⟩
  · rintro ⟨⟨d, hd, hret⟩, hrs⟩
    exact ⟨d, hd, resolved.params, hrs, by rw [← hret]⟩

theorem within_resolveConstructors {c : ClassDecl} {index : Nat} {ks : List ConstructorDecl}
    {rs : List ResolvedConstructor} :
    Within P (resolveConstructors π c index ks) rs ↔
      List.Forall₂ (ConstructorDeclaredAs P π c) ks rs := by
  induction ks generalizing index rs with
  | nil =>
    unfold resolveConstructors
    rw [within_pure, List.forall₂_nil_left_iff]
  | cons k rest ih =>
    unfold resolveConstructors
    simp only [within_bind, within_resolveConstructor, within_pure, ih, List.forall₂_cons_left_iff]
    constructor
    · rintro ⟨r, hr, rs', hrs, rfl⟩
      exact ⟨r, rs', hr, hrs, rfl⟩
    · rintro ⟨r, rs', hr, hrs, rfl⟩
      exact ⟨r, hr, rs', hrs, rfl⟩

theorem within_resolveReceiver {c : ClassDecl} {m : MethodDecl} {receiver : Option Qualifier} :
    Within P (resolveReceiver π c m) receiver ↔ ReceiverDeclaredAs P π c m receiver := by
  unfold resolveReceiver
  cases hs : m.isStatic with
  | true =>
    show Within P (pure none) receiver ↔ _
    rw [within_pure]
    cases receiver with
    | none => simp [ReceiverDeclaredAs, hs]
    | some q => simp [ReceiverDeclaredAs, hs]
  | false =>
    show Within P (declare π ⟨c.name, m.name⟩ (.receiver m.name) c.host m.receiverText >>=
      fun d => pure (some d.qualifier)) receiver ↔ _
    simp only [within_bind, within_declare, within_pure]
    cases receiver with
    | none => simp [ReceiverDeclaredAs, hs]
    | some q => simp [ReceiverDeclaredAs, hs]

theorem within_resolveReturn {c : ClassDecl} {m : MethodDecl} {q : Qualifier} :
    Within P (resolveReturn π c m) q ↔ ReturnDeclaredAs P π m q := by
  unfold resolveReturn ReturnDeclaredAs
  cases m.returns with
  | none => exact within_pure
  | some host => simp only [within_bind, within_declare, within_pure]

theorem within_resolveMethod {c : ClassDecl} {m : MethodDecl} {resolved : ResolvedMethod} :
    Within P (resolveMethod π c m) resolved ↔ MethodDeclaredAs P π c m resolved := by
  unfold resolveMethod
  simp only [within_bind, within_resolveReceiver, within_resolveParams, within_resolveReturn,
    within_pure]
  constructor
  · rintro ⟨receiver, hreceiver, rs, hrs, q, hq, rfl⟩
    exact ⟨rfl, rfl, hreceiver, hrs, rfl, hq, rfl⟩
  · intro h
    refine ⟨_, h.receiver, _, h.params, _, h.ret, ?_⟩
    rw [← h.name, ← h.isStatic, ← h.qualifiers, ← h.returns]

theorem within_resolveMethods {c : ClassDecl} {ms : List MethodDecl} {rs : List ResolvedMethod} :
    Within P (resolveMethods π c ms) rs ↔ List.Forall₂ (MethodDeclaredAs P π c) ms rs := by
  induction ms generalizing rs with
  | nil =>
    unfold resolveMethods
    rw [within_pure, List.forall₂_nil_left_iff]
  | cons m rest ih =>
    unfold resolveMethods
    simp only [within_bind, within_resolveMethod, within_pure, ih, List.forall₂_cons_left_iff]
    constructor
    · rintro ⟨r, hr, rs', hrs, rfl⟩
      exact ⟨r, rs', hr, hrs, rfl⟩
    · rintro ⟨r, rs', hr, hrs, rfl⟩
      exact ⟨r, hr, rs', hrs, rfl⟩

/-- A class resolves to a table within `P` exactly if the table is made of its declarations. -/
theorem within_resolveClass {c : ClassDecl} {table : ClassTable} :
    Within P (resolveClass π c) table ↔ ClassDeclaredAs P π c table := by
  unfold resolveClass
  simp only [within_bind, within_resolveFields, within_resolveConstructors, within_resolveMethods,
    within_pure]
  constructor
  · rintro ⟨fields, hfields, ks, hks, ms, hms, rfl⟩
    exact ⟨hfields, hks, hms⟩
  · rintro ⟨hfields, hks, hms⟩
    exact ⟨_, hfields, _, hks, _, hms, rfl⟩

/-! ## Looking tables up -/

theorem get?_of_not_mem {tables tables' : Tables} {cs : List ClassDecl} {owner : String}
    (h : Within P (resolveClasses π tables cs) tables') (hn : owner ∉ cs.map ClassDecl.name) :
    tables'.get? owner = tables.get? owner := by
  induction cs generalizing tables with
  | nil =>
    unfold resolveClasses at h
    rw [within_pure.1 h]
  | cons c rest ih =>
    unfold resolveClasses at h
    obtain ⟨table, -, hrest⟩ := within_bind.1 h
    rw [List.map_cons, List.mem_cons, not_or] at hn
    rw [ih hrest hn.2, OrderedMap.get?_insert, if_neg hn.1]

/-- Every table is that of a class with its name. -/
theorem exists_class_of_get? {tables tables' : Tables} {cs : List ClassDecl} {owner : String}
    {table : ClassTable} (h : Within P (resolveClasses π tables cs) tables')
    (ht : tables'.get? owner = some table) :
    (∃ c ∈ cs, c.name = owner ∧ ClassDeclaredAs P π c table) ∨ tables.get? owner = some table := by
  induction cs generalizing tables with
  | nil =>
    unfold resolveClasses at h
    rw [within_pure.1 h] at ht
    exact Or.inr ht
  | cons c rest ih =>
    unfold resolveClasses at h
    obtain ⟨own, hown, hrest⟩ := within_bind.1 h
    rcases ih hrest with ⟨c', hc', hname, hdecl⟩ | hbefore
    · exact Or.inl ⟨c', List.mem_cons_of_mem c hc', hname, hdecl⟩
    · rw [OrderedMap.get?_insert] at hbefore
      split at hbefore
      · next howner =>
        obtain rfl : own = table := Option.some.inj hbefore
        exact Or.inl ⟨c, List.mem_cons_self, howner.symm, within_resolveClass.1 hown⟩
      · exact Or.inr hbefore

/-- With names that differ, every class finds its own table under its name. -/
theorem get?_of_mem {tables tables' : Tables} {cs : List ClassDecl} {c : ClassDecl}
    (h : Within P (resolveClasses π tables cs) tables') (hn : (cs.map ClassDecl.name).Nodup)
    (hc : c ∈ cs) : ∃ table, tables'.get? c.name = some table ∧ ClassDeclaredAs P π c table := by
  induction cs generalizing tables with
  | nil => cases hc
  | cons c' rest ih =>
    unfold resolveClasses at h
    obtain ⟨own, hown, hrest⟩ := within_bind.1 h
    rw [List.map_cons, List.nodup_cons] at hn
    rcases List.mem_cons.1 hc with rfl | hc
    · refine ⟨own, ?_, within_resolveClass.1 hown⟩
      rw [get?_of_not_mem hrest hn.1, OrderedMap.get?_insert, if_pos rfl]
    · exact ih hrest hn.2 hc

theorem exists_tables {cs : List ClassDecl} (tables : Tables)
    (h : ∀ c ∈ cs, ∃ table, ClassDeclaredAs P π c table) :
    ∃ tables', Within P (resolveClasses π tables cs) tables' := by
  induction cs generalizing tables with
  | nil =>
    unfold resolveClasses
    exact ⟨tables, within_pure.2 rfl⟩
  | cons c rest ih =>
    obtain ⟨table, htable⟩ := h c List.mem_cons_self
    obtain ⟨tables', htables⟩ := ih (tables.insert c.name table)
      fun c' hc' => h c' (List.mem_cons_of_mem c hc')
    unfold resolveClasses
    exact ⟨tables', within_bind.2 ⟨table, within_resolveClass.2 htable, htables⟩⟩

/-! ## Looking members up -/

theorem get?_foldl_insert (rs : List ResolvedField) (m : OrderedMap String ResolvedField)
    (name : String) :
    (rs.foldl (fun m r => m.insert r.field.name r) m).get? name =
      (rs.reverse.find? fun r => r.field.name = name).or (m.get? name) := by
  induction rs generalizing m with
  | nil => rfl
  | cons r rest ih =>
    rw [List.foldl_cons, ih, OrderedMap.get?_insert, List.reverse_cons, List.find?_append,
      Option.or_assoc]
    congr 1
    by_cases h : name = r.field.name
    · subst h; simp
    · have h' : ¬ r.field.name = name := fun e => h e.symm
      simp [h, h']

theorem ParamsDeclaredAs.declaredAs {method : String} {index : Nat} {ps : List ParamDecl}
    {rs : List ResolvedParam} (h : ParamsDeclaredAs P π method index ps rs) {r : ResolvedParam}
    (hr : r ∈ rs) : ∃ i p, p ∈ ps ∧
      DeclaredAs P π (.parameter method i) p.host p.qualifierText r.declared := by
  induction h with
  | nil => cases hr
  | @cons i p d ps rs hd hps ih =>
    rcases List.mem_cons.1 hr with rfl | hr
    · exact ⟨i, p, List.mem_cons_self, hd⟩
    · obtain ⟨j, p', hp', hd'⟩ := ih hr
      exact ⟨j, p', List.mem_cons_of_mem p hp', hd'⟩

theorem ParamsDeclaredAs.length_eq {method : String} {index : Nat} {ps : List ParamDecl}
    {rs : List ResolvedParam} (h : ParamsDeclaredAs P π method index ps rs) :
    ps.length = rs.length := by
  induction h with
  | nil => rfl
  | cons _ _ ih => rw [List.length_cons, List.length_cons, ih]

namespace ClassDeclaredAs

variable {c : ClassDecl} {table : ClassTable}

/-- A name is that of a field of the table exactly if it is that of a declaration, and then the
last declaration with this name counts. -/
theorem field (h : ClassDeclaredAs P π c table) (name : String) :
    (c.field? name = none ∧ table.fields.get? name = none) ∨
      ∃ f r, c.field? name = some f ∧
        table.fields.get? name = some r ∧ FieldDeclaredAs P π f r := by
  obtain ⟨rs, hrs, hfields⟩ := h.fields
  rw [hfields, get?_foldl_insert,
    show (∅ : OrderedMap String ResolvedField).get? name = none from rfl, Option.or_none]
  refine find?_of_forall₂ (List.rel_reverse hrs) fun f r hr => ?_
  rw [hr.name_eq]

theorem constructor (h : ClassDeclaredAs P π c table) (arity : Nat) :
    (c.constructor? arity = none ∧
        (table.constructors.find? fun k => k.params.length = arity) = none) ∨
      ∃ k r, c.constructor? arity = some k ∧
        (table.constructors.find? fun k => k.params.length = arity) = some r ∧
        ConstructorDeclaredAs P π c k r := by
  refine find?_of_forall₂ h.constructors fun k r hr => ?_
  rw [hr.params.length_eq]

theorem method (h : ClassDeclaredAs P π c table) (name : String) (arity : Nat) :
    (c.method? name arity = none ∧
        (table.methods.find? fun m => m.signature.name = name ∧ m.params.length = arity) = none) ∨
      ∃ m r, c.method? name arity = some m ∧
        (table.methods.find? fun m => m.signature.name = name ∧ m.params.length = arity) = some r ∧
        MethodDeclaredAs P π c m r := by
  refine find?_of_forall₂ h.methods fun m r hr => ?_
  rw [hr.params.length_eq, hr.name]

end ClassDeclaredAs

end Checker

end Mutability
