import Mutability.Proofs.Annotation
import Mutability.Proofs.BodyRuns

/-!
# Programs without their annotations

`erase` takes every annotation out of a program. A run on a program and one on its erasure go the
same way, whatever the two policies are, as long as both have a qualifier for every position: the
look-ups succeed and fail alike, since they ask for names, numbers of parameters and types only.
`Mirrors` says this of two computations: they end in the same fault, or in values that correspond,
having recorded positions of the same kinds and types. The one fault that the erasure cannot share
is that of an annotation that is not known, and that one is traced back to the annotation.

The first pass is compared here, and with it the look-ups in the tables that it makes.
-/

namespace Mutability

/-! ## Erasure -/

mutual

/-- The expression without annotations. -/
def Expr.erase : Expr → Expr
  | .self => .self
  | .null => .null
  | .literal host => .literal host
  | .var name => .var name
  | .fieldRead receiver field => .fieldRead receiver.erase field
  | .create className _ args => .create className none (Expr.eraseAll args)
  | .call receiver method args => .call receiver.erase method (Expr.eraseAll args)
  | .staticCall className method args => .staticCall className method (Expr.eraseAll args)
  | .cast host _ operand => .cast host none operand.erase
  | .binary host lhs rhs => .binary host lhs.erase rhs.erase

/-- The expressions without annotations. -/
def Expr.eraseAll : List Expr → List Expr
  | [] => []
  | e :: rest => e.erase :: Expr.eraseAll rest

end

theorem Expr.length_eraseAll (args : List Expr) : (Expr.eraseAll args).length = args.length := by
  induction args with
  | nil => rfl
  | cons e rest ih => rw [Expr.eraseAll, List.length_cons, List.length_cons, ih]

/-- The statement without annotations. -/
def Stmt.erase : Stmt → Stmt
  | .localVar name host _ init => .localVar name host none (init.map Expr.erase)
  | .assign target value => .assign target value.erase
  | .fieldWrite receiver field value => .fieldWrite receiver.erase field value.erase
  | .eval e => .eval e.erase
  | .exit value => .exit (value.map Expr.erase)

def FieldDecl.erase (f : FieldDecl) : FieldDecl :=
  { f with qualifierText := none }

def ParamDecl.erase (p : ParamDecl) : ParamDecl :=
  { p with qualifierText := none }

def ConstructorDecl.erase (k : ConstructorDecl) : ConstructorDecl where
  qualifierText := none
  params := k.params.map ParamDecl.erase
  body := k.body.map Stmt.erase

def MethodDecl.erase (m : MethodDecl) : MethodDecl where
  name := m.name
  isStatic := m.isStatic
  receiverText := none
  params := m.params.map ParamDecl.erase
  returns := m.returns
  returnText := none
  body := m.body.map Stmt.erase

def ClassDecl.erase (c : ClassDecl) : ClassDecl where
  name := c.name
  fields := c.fields.map FieldDecl.erase
  constructors := c.constructors.map ConstructorDecl.erase
  methods := c.methods.map MethodDecl.erase

/-- The program without annotations. -/
def Program.erase (p : Program) : Program :=
  ⟨p.classes.map ClassDecl.erase⟩

/-! ## Annotations -/

mutual

/-- The annotations of an expression. -/
def Expr.annotations : Expr → List String
  | .self | .null | .literal _ | .var _ => []
  | .fieldRead receiver _ => receiver.annotations
  | .create _ text args => text.toList ++ Expr.annotationsAll args
  | .call receiver _ args => receiver.annotations ++ Expr.annotationsAll args
  | .staticCall _ _ args => Expr.annotationsAll args
  | .cast _ text operand => text.toList ++ operand.annotations
  | .binary _ lhs rhs => lhs.annotations ++ rhs.annotations

/-- The annotations of expressions. -/
def Expr.annotationsAll : List Expr → List String
  | [] => []
  | e :: rest => e.annotations ++ Expr.annotationsAll rest

end

/-- The annotations of a statement. -/
def Stmt.annotations : Stmt → List String
  | .localVar _ _ text init => text.toList ++ init.toList.flatMap Expr.annotations
  | .assign _ value => value.annotations
  | .fieldWrite receiver _ value => receiver.annotations ++ value.annotations
  | .eval e => e.annotations
  | .exit value => value.toList.flatMap Expr.annotations

def ParamDecl.annotations (p : ParamDecl) : List String :=
  p.qualifierText.toList

def FieldDecl.annotations (f : FieldDecl) : List String :=
  f.qualifierText.toList

def ConstructorDecl.annotations (k : ConstructorDecl) : List String :=
  k.qualifierText.toList ++ (k.params.flatMap ParamDecl.annotations ++
    k.body.flatMap Stmt.annotations)

def MethodDecl.annotations (m : MethodDecl) : List String :=
  m.receiverText.toList ++ (m.params.flatMap ParamDecl.annotations ++ (m.returnText.toList ++
    m.body.flatMap Stmt.annotations))

def ClassDecl.annotations (c : ClassDecl) : List String :=
  c.fields.flatMap FieldDecl.annotations ++
    (c.constructors.flatMap ConstructorDecl.annotations ++
      c.methods.flatMap MethodDecl.annotations)

/-- Every annotation of the program. -/
def Program.annotations (p : Program) : List String :=
  p.classes.flatMap ClassDecl.annotations

section

variable {P : String → Prop}

theorem ConstructorDecl.forall_annotations {k : ConstructorDecl} :
    (∀ t ∈ k.annotations, P t) ↔ (∀ t ∈ k.qualifierText.toList, P t) ∧
      (∀ t ∈ k.params.flatMap ParamDecl.annotations, P t) ∧
      ∀ t ∈ k.body.flatMap Stmt.annotations, P t := by
  rw [annotations, List.forall_mem_append, List.forall_mem_append]

theorem MethodDecl.forall_annotations {m : MethodDecl} :
    (∀ t ∈ m.annotations, P t) ↔ (∀ t ∈ m.receiverText.toList, P t) ∧
      (∀ t ∈ m.params.flatMap ParamDecl.annotations, P t) ∧
      (∀ t ∈ m.returnText.toList, P t) ∧ ∀ t ∈ m.body.flatMap Stmt.annotations, P t := by
  rw [annotations, List.forall_mem_append, List.forall_mem_append, List.forall_mem_append]

theorem ClassDecl.forall_annotations {c : ClassDecl} :
    (∀ t ∈ c.annotations, P t) ↔ (∀ t ∈ c.fields.flatMap FieldDecl.annotations, P t) ∧
      (∀ t ∈ c.constructors.flatMap ConstructorDecl.annotations, P t) ∧
      ∀ t ∈ c.methods.flatMap MethodDecl.annotations, P t := by
  rw [annotations, List.forall_mem_append, List.forall_mem_append]

end

/-- What an annotation cannot change about a position. -/
def Position.shape (p : Position) : Position.Kind × HostType :=
  (p.kind, p.host)

/-- The kinds and types of the declared positions, in order. -/
def Report.shapes (r : Report) : List (Position.Kind × HostType) :=
  r.positions.map Position.shape

theorem Report.shapes_append (r s : Report) : (r ++ s).shapes = r.shapes ++ s.shapes := by
  unfold shapes
  rw [append_positions, List.map_append]

namespace Checker

/-! ## Computations that go the same way -/

section

variable {U : String → Prop} {α β γ δ : Type} {R : α → β → Prop} {S : γ → δ → Prop}

/-- The second computation, on erased declarations, goes as the first one does, unless that one
comes to an annotation that is not known; the name that it then reports is one of `U`. -/
inductive Mirrors (U : String → Prop) (R : α → β → Prop) (m : Check α) (m₀ : Check β) : Prop
  | unknown {name : String} : U name → Fails m (.unknownQualifier name) → Mirrors U R m m₀
  | fault {f : Fault} : (∀ name, f ≠ .unknownQualifier name) → Fails m f → Fails m₀ f →
      Mirrors U R m m₀
  | value {a : α} {b : β} {d d₀ : Report} : Yields m a d → Yields m₀ b d₀ → R a b →
      d.shapes = d₀.shapes → Mirrors U R m m₀

theorem Mirrors.bind {m : Check α} {m₀ : Check β} {k : α → Check γ} {k₀ : β → Check δ}
    [∀ a, Additive (k a)] [∀ b, Additive (k₀ b)] (h : Mirrors U R m m₀)
    (hk : ∀ a b, R a b → Mirrors U S (k a) (k₀ b)) : Mirrors U S (m >>= k) (m₀ >>= k₀) := by
  rcases h with ⟨hU, hm⟩ | ⟨hf, hm, hm₀⟩ | ⟨hm, hm₀, hR, hd⟩
  · exact .unknown hU (fails_bind.2 (Or.inl hm))
  · exact .fault hf (fails_bind.2 (Or.inl hm)) (fails_bind.2 (Or.inl hm₀))
  · rcases hk _ _ hR with ⟨hU, hk⟩ | ⟨hf, hk, hk₀⟩ | ⟨hk, hk₀, hS, he⟩
    · exact .unknown hU (fails_bind.2 (Or.inr ⟨_, _, hm, hk⟩))
    · exact .fault hf (fails_bind.2 (Or.inr ⟨_, _, hm, hk⟩))
        (fails_bind.2 (Or.inr ⟨_, _, hm₀, hk₀⟩))
    · refine .value (yields_bind.2 ⟨_, _, _, hm, hk, rfl⟩) (yields_bind.2 ⟨_, _, _, hm₀, hk₀, rfl⟩)
        hS ?_
      rw [Report.shapes_append, Report.shapes_append, hd, he]

theorem mirrors_pure {a : α} {b : β} (h : R a b) : Mirrors U R (pure a) (pure b) :=
  .value (yields_pure.2 ⟨rfl, rfl⟩) (yields_pure.2 ⟨rfl, rfl⟩) h rfl

/-- Two look-ups that fail alike or find things that correspond. -/
inductive Agree (R : α → β → Prop) : Except Fault α → Except Fault β → Prop
  | error {f : Fault} : (∀ name, f ≠ .unknownQualifier name) → Agree R (.error f) (.error f)
  | ok {a : α} {b : β} : R a b → Agree R (.ok a) (.ok b)

theorem agree_orFault {o : Option α} {o₀ : Option β} {f : Fault}
    (hf : ∀ name, f ≠ .unknownQualifier name)
    (h : (o = none ∧ o₀ = none) ∨ ∃ a b, o = some a ∧ o₀ = some b ∧ R a b) :
    Agree R (orFault f o) (orFault f o₀) := by
  rcases h with ⟨rfl, rfl⟩ | ⟨a, b, rfl, rfl, hR⟩
  · exact .error hf
  · exact .ok hR

theorem Agree.bind {x : Except Fault α} {x₀ : Except Fault β} {k : α → Except Fault γ}
    {k₀ : β → Except Fault δ} (h : Agree R x x₀) (hk : ∀ a b, R a b → Agree S (k a) (k₀ b)) :
    Agree S (x >>= k) (x₀ >>= k₀) := by
  cases h with
  | error hf => exact .error hf
  | ok hR => exact hk _ _ hR

theorem Agree.lift {x : Except Fault α} {x₀ : Except Fault β} (h : Agree R x x₀) :
    Mirrors U R (liftM x) (liftM x₀) := by
  cases h with
  | error hf => exact .fault hf rfl rfl
  | ok hR => exact .value (yields_lift.2 ⟨rfl, rfl⟩) (yields_lift.2 ⟨rfl, rfl⟩) hR rfl

theorem mirrors_emitAll {l l₀ : Location} {ds ds₀ : List Diagnostic} :
    Mirrors U (fun _ _ => True) (emitAll l ds) (emitAll l₀ ds₀) :=
  .value (a := ()) (b := ()) (yields_emitAll.2 rfl) (yields_emitAll.2 rfl) trivial rfl

theorem mirrors_recordPosition {p p₀ : Position} (h : p.shape = p₀.shape) :
    Mirrors U (fun _ _ => True) (recordPosition p) (recordPosition p₀) := by
  refine .value (a := ()) (b := ()) (yields_recordPosition.2 rfl) (yields_recordPosition.2 rfl)
    trivial ?_
  show [p.shape] = [p₀.shape]
  rw [h]

variable {π π₀ : Policy}

/-- If the annotation is not known, the name that is reported is one of `U`. -/
def Accounted (π : Policy) (U : String → Prop) (text : String) : Prop :=
  ∀ name, π.resolve text = .error (.unknownQualifier name) → U name

theorem mirrors_resolve? {text : Option String} (ht : ∀ t ∈ text.toList, Accounted π U t) :
    Mirrors U (fun _ _ => True) (liftM (π.resolve? text) : Check (Option Qualifier))
      (liftM (π₀.resolve? none) : Check (Option Qualifier)) := by
  cases text with
  | none => exact Agree.lift (.ok trivial)
  | some text =>
    have hU := ht text List.mem_cons_self
    show Mirrors U _ (liftM ((π.resolve text).map some)) _
    unfold Accounted at hU
    unfold Policy.resolve at hU ⊢
    cases hr : π.config.resolve text with
    | error unknown =>
      rw [hr] at hU
      exact .unknown (hU unknown.text rfl) rfl
    | ok q => exact Agree.lift (.ok trivial)

theorem agree_qualifierOf (hπ : Stage.generic ∈ π.stages) (hπ₀ : Stage.generic ∈ π₀.stages)
    (p p₀ : Position) : Agree (fun _ _ => True) (π.qualifierOf p) (π₀.qualifierOf p₀) := by
  obtain ⟨q, hq⟩ := Policy.qualifierOf_total hπ p
  obtain ⟨q₀, hq₀⟩ := Policy.qualifierOf_total hπ₀ p₀
  rw [hq, hq₀]
  exact .ok trivial

theorem agree_declared (hπ : Stage.generic ∈ π.stages) (hπ₀ : Stage.generic ∈ π₀.stages)
    (p p₀ : Position) :
    Agree (fun d d₀ => d.position = π.annotate p ∧ d₀.position = π₀.annotate p₀)
      (Declared.ofPosition (π.annotate p)) (Declared.ofPosition (π₀.annotate p₀)) := by
  obtain ⟨d, hd⟩ := Policy.exists_declared hπ p
  obtain ⟨d₀, hd₀⟩ := Policy.exists_declared hπ₀ p₀
  rw [hd, hd₀]
  exact .ok ⟨Declared.ofPosition_eq_ok.1 hd, Declared.ofPosition_eq_ok.1 hd₀⟩

end

/-! ## Tables -/

/-- Equal but for qualifiers. -/
structure ParamMirrors (r r₀ : ResolvedParam) : Prop where
  name : r.name = r₀.name
  host : r.declared.position.host = r₀.declared.position.host

/-- Equal but for qualifiers. -/
def ConstructorMirrors (r r₀ : ResolvedConstructor) : Prop :=
  List.Forall₂ ParamMirrors r.params r₀.params

/-- Equal but for qualifiers. -/
structure MethodMirrors (r r₀ : ResolvedMethod) : Prop where
  name : r.signature.name = r₀.signature.name
  receiver : r.signature.receiver.isSome = r₀.signature.receiver.isSome
  params : List.Forall₂ ParamMirrors r.params r₀.params
  returns : r.returns = r₀.returns

/-- Look-ups in the two maps find nothing alike, or find values that correspond. -/
def MapsMirror {α β : Type} (R : α → β → Prop) (m : OrderedMap String α)
    (m₀ : OrderedMap String β) : Prop :=
  ∀ x, (m.get? x = none ∧ m₀.get? x = none) ∨
    ∃ a b, m.get? x = some a ∧ m₀.get? x = some b ∧ R a b

theorem MapsMirror.empty {α β : Type} {R : α → β → Prop} : MapsMirror R ∅ ∅ :=
  fun _ => Or.inl ⟨rfl, rfl⟩

theorem MapsMirror.insert {α β : Type} {R : α → β → Prop} {m : OrderedMap String α}
    {m₀ : OrderedMap String β} (h : MapsMirror R m m₀) (x : String) {a : α} {b : β} (hab : R a b) :
    MapsMirror R (m.insert x a) (m₀.insert x b) := by
  intro y
  rw [OrderedMap.get?_insert, OrderedMap.get?_insert]
  split
  · exact Or.inr ⟨a, b, rfl, rfl, hab⟩
  · exact h y

/-- Equal but for qualifiers, as far as look-ups can see. -/
structure TableMirrors (table table₀ : ClassTable) : Prop where
  fields : MapsMirror (fun f f₀ : ResolvedField => f.host = f₀.host) table.fields table₀.fields
  constructors : List.Forall₂ ConstructorMirrors table.constructors table₀.constructors
  methods : List.Forall₂ MethodMirrors table.methods table₀.methods

/-- Equal but for qualifiers, as far as look-ups can see. -/
def TablesMirror (ts ts₀ : Tables) : Prop :=
  MapsMirror TableMirrors ts ts₀

section

variable {ts ts₀ : Tables}

theorem TablesMirror.table (h : TablesMirror ts ts₀) (owner : String) :
    Agree TableMirrors (ts.table owner) (ts₀.table owner) := by
  rw [Tables.table_eq, Tables.table_eq]
  exact agree_orFault (by simp) (h owner)

theorem agree_className {host host₀ : HostType} (h : host = host₀) :
    Agree Eq (className host) (className host₀) := by
  subst h
  cases host with
  | declared name => exact .ok rfl
  | _ => exact .error (by simp)

theorem TablesMirror.field (h : TablesMirror ts ts₀) (host : HostType) (name : String) :
    Agree (fun f f₀ => f.host = f₀.host) (ts.field host name) (ts₀.field host name) := by
  rw [Tables.field_eq, Tables.field_eq]
  refine (agree_className rfl).bind fun owner _ howner => ?_
  obtain rfl := howner
  refine (h.table owner).bind fun table table₀ htable => ?_
  exact agree_orFault (by simp) (htable.fields name)

theorem TablesMirror.method (h : TablesMirror ts ts₀) (owner name : String) (arity : Nat) :
    Agree MethodMirrors (ts.method owner name arity) (ts₀.method owner name arity) := by
  rw [Tables.method_eq, Tables.method_eq]
  refine (h.table owner).bind fun table table₀ htable => ?_
  refine agree_orFault (by simp) (find?_of_forall₂ htable.methods fun m m₀ hm => ?_)
  rw [hm.name, hm.params.length_eq]

theorem TablesMirror.constructor (h : TablesMirror ts ts₀) (owner : String) (arity : Nat) :
    Agree ConstructorMirrors (ts.constructor owner arity) (ts₀.constructor owner arity) := by
  rw [Tables.constructor_eq, Tables.constructor_eq]
  refine (h.table owner).bind fun table table₀ htable => ?_
  refine agree_orFault (by simp) (find?_of_forall₂ htable.constructors fun k k₀ hk => ?_)
  rw [hk.length_eq]

theorem TableMirrors.constructorAt {table table₀ : ClassTable} (h : TableMirrors table table₀)
    (name : String) (index : Nat) :
    Agree ConstructorMirrors (table.constructorAt name index) (table₀.constructorAt name index) :=
  agree_orFault (by simp) (getElem?_cases_of_forall₂ h.constructors index)

theorem TableMirrors.methodAt {table table₀ : ClassTable} (h : TableMirrors table table₀)
    (name : String) (index : Nat) :
    Agree MethodMirrors (table.methodAt name index) (table₀.methodAt name index) :=
  agree_orFault (by simp) (getElem?_cases_of_forall₂ h.methods index)

end

/-! ## The first pass -/

section

variable {U : String → Prop} {π π₀ : Policy} (hπ : Stage.generic ∈ π.stages)
  (hπ₀ : Stage.generic ∈ π₀.stages)

include hπ hπ₀

theorem mirrors_declare (l l₀ : Location) (kind : Position.Kind) (host : HostType)
    {text : Option String} (ht : ∀ t ∈ text.toList, Accounted π U t) :
    Mirrors U (fun d d₀ => d.position.host = d₀.position.host) (declare π l kind host text)
      (declare π₀ l₀ kind host none) := by
  simp only [declare, validate]
  refine (mirrors_resolve? ht).bind fun explicit explicit₀ _ => ?_
  refine mirrors_emitAll.bind fun _ _ _ => ?_
  refine (agree_declared hπ hπ₀ _ _).lift.bind fun d d₀ hpositions => ?_
  obtain ⟨hd, hd₀⟩ := hpositions
  have hhost : d.position.host = d₀.position.host := by
    rw [hd, hd₀, Policy.annotate_host, Policy.annotate_host]
    rfl
  have hkind : d.position.kind = d₀.position.kind := by
    rw [hd, hd₀, Policy.annotate_kind, Policy.annotate_kind]
    rfl
  refine (mirrors_recordPosition (Prod.ext hkind hhost)).bind fun _ _ _ => ?_
  exact mirrors_pure hhost

theorem mirrors_resolveParams (l l₀ : Location) (method : String) (index : Nat)
    {ps : List ParamDecl} (ht : ∀ t ∈ ps.flatMap ParamDecl.annotations, Accounted π U t) :
    Mirrors U (List.Forall₂ ParamMirrors) (resolveParams π l method index ps)
      (resolveParams π₀ l₀ method index (ps.map ParamDecl.erase)) := by
  induction ps generalizing index with
  | nil => exact mirrors_pure .nil
  | cons p rest ih =>
    rw [List.flatMap_cons, List.forall_mem_append] at ht
    unfold resolveParams
    refine (mirrors_declare hπ hπ₀ _ _ _ _ ht.1).bind fun d d₀ hd => ?_
    refine (ih (index + 1) ht.2).bind fun rs rs₀ hrs => ?_
    exact mirrors_pure (.cons ⟨rfl, hd⟩ hrs)

theorem mirrors_resolveFields (c c₀ : ClassDecl) {fields fields₀ : OrderedMap String ResolvedField}
    (hfields : MapsMirror (fun f f₀ : ResolvedField => f.host = f₀.host) fields fields₀)
    {fs : List FieldDecl} (ht : ∀ t ∈ fs.flatMap FieldDecl.annotations, Accounted π U t) :
    Mirrors U (MapsMirror fun f f₀ : ResolvedField => f.host = f₀.host)
      (resolveFields π c fields fs)
      (resolveFields π₀ c₀ fields₀ (fs.map FieldDecl.erase)) := by
  induction fs generalizing fields fields₀ with
  | nil => exact mirrors_pure hfields
  | cons f rest ih =>
    rw [List.flatMap_cons, List.forall_mem_append] at ht
    have hfield : Mirrors U (fun r r₀ : ResolvedField => r.host = r₀.host) (resolveField π c f)
        (resolveField π₀ c₀ f.erase) := by
      unfold resolveField
      exact (mirrors_declare hπ hπ₀ _ _ _ _ ht.1).bind fun d d₀ _ => mirrors_pure rfl
    unfold resolveFields
    exact hfield.bind fun r r₀ hr => ih (hfields.insert f.name hr) ht.2

theorem mirrors_resolveConstructors (c : ClassDecl) (index : Nat) {ks : List ConstructorDecl}
    (ht : ∀ t ∈ ks.flatMap ConstructorDecl.annotations, Accounted π U t) :
    Mirrors U (List.Forall₂ ConstructorMirrors) (resolveConstructors π c index ks)
      (resolveConstructors π₀ c.erase index (ks.map ConstructorDecl.erase)) := by
  induction ks generalizing index with
  | nil => exact mirrors_pure .nil
  | cons k rest ih =>
    rw [List.flatMap_cons, List.forall_mem_append] at ht
    have hk : Mirrors U ConstructorMirrors (resolveConstructor π c index k)
        (resolveConstructor π₀ c.erase index k.erase) := by
      obtain ⟨hresult, hparams, -⟩ := ConstructorDecl.forall_annotations.1 ht.1
      unfold resolveConstructor
      refine (mirrors_declare hπ hπ₀ _ _ _ _ hresult).bind fun d d₀ _ => ?_
      exact (mirrors_resolveParams hπ hπ₀ _ _ _ _ hparams).bind fun rs rs₀ hrs => mirrors_pure hrs
    unfold resolveConstructors
    refine hk.bind fun r r₀ hr => ?_
    exact (ih (index + 1) ht.2).bind fun rs rs₀ hrs => mirrors_pure (.cons hr hrs)

theorem mirrors_resolveReceiver (c : ClassDecl) {m : MethodDecl}
    (ht : ∀ t ∈ m.receiverText.toList, Accounted π U t) :
    Mirrors U (fun q q₀ => q.isSome = q₀.isSome) (resolveReceiver π c m)
      (resolveReceiver π₀ c.erase m.erase) := by
  unfold resolveReceiver
  show Mirrors U _ (if m.isStatic then _ else _) (if m.isStatic then _ else _)
  split
  · exact mirrors_pure rfl
  · exact (mirrors_declare hπ hπ₀ _ _ _ _ ht).bind fun d d₀ _ => mirrors_pure rfl

theorem mirrors_resolveReturn (c : ClassDecl) {m : MethodDecl}
    (ht : ∀ t ∈ m.returnText.toList, Accounted π U t) :
    Mirrors U (fun _ _ => True) (resolveReturn π c m) (resolveReturn π₀ c.erase m.erase) := by
  have hreturns : m.erase.returns = m.returns := rfl
  unfold resolveReturn
  rw [hreturns]
  cases m.returns with
  | none => exact mirrors_pure trivial
  | some host => exact (mirrors_declare hπ hπ₀ _ _ _ _ ht).bind fun d d₀ _ => mirrors_pure trivial

theorem mirrors_resolveMethods (c : ClassDecl) {ms : List MethodDecl}
    (ht : ∀ t ∈ ms.flatMap MethodDecl.annotations, Accounted π U t) :
    Mirrors U (List.Forall₂ MethodMirrors) (resolveMethods π c ms)
      (resolveMethods π₀ c.erase (ms.map MethodDecl.erase)) := by
  induction ms with
  | nil => exact mirrors_pure .nil
  | cons m rest ih =>
    rw [List.flatMap_cons, List.forall_mem_append] at ht
    have hm : Mirrors U MethodMirrors (resolveMethod π c m)
        (resolveMethod π₀ c.erase m.erase) := by
      obtain ⟨hreceiver, hparams, hreturn, -⟩ := MethodDecl.forall_annotations.1 ht.1
      unfold resolveMethod
      refine (mirrors_resolveReceiver hπ hπ₀ c hreceiver).bind fun q q₀ hq => ?_
      refine (mirrors_resolveParams hπ hπ₀ _ _ _ _ hparams).bind fun rs rs₀ hrs => ?_
      refine (mirrors_resolveReturn hπ hπ₀ c hreturn).bind fun ret ret₀ _ => ?_
      exact mirrors_pure ⟨rfl, hq, hrs, rfl⟩
    unfold resolveMethods
    refine hm.bind fun r r₀ hr => ?_
    exact (ih ht.2).bind fun rs rs₀ hrs => mirrors_pure (.cons hr hrs)

theorem mirrors_resolveClass {c : ClassDecl} (ht : ∀ t ∈ c.annotations, Accounted π U t) :
    Mirrors U TableMirrors (resolveClass π c) (resolveClass π₀ c.erase) := by
  obtain ⟨hfields, hconstructors, hmethods⟩ := ClassDecl.forall_annotations.1 ht
  unfold resolveClass
  refine (mirrors_resolveFields hπ hπ₀ c c.erase .empty hfields).bind fun fs fs₀ hfs => ?_
  refine (mirrors_resolveConstructors hπ hπ₀ c 0 hconstructors).bind fun ks ks₀ hks => ?_
  refine (mirrors_resolveMethods hπ hπ₀ c hmethods).bind fun ms ms₀ hms => ?_
  exact mirrors_pure ⟨hfs, hks, hms⟩

/-- The first pass over a program and over its erasure go the same way. -/
theorem mirrors_resolveClasses {ts ts₀ : Tables} (hts : TablesMirror ts ts₀)
    {cs : List ClassDecl} (ht : ∀ t ∈ cs.flatMap ClassDecl.annotations, Accounted π U t) :
    Mirrors U TablesMirror (resolveClasses π ts cs)
      (resolveClasses π₀ ts₀ (cs.map ClassDecl.erase)) := by
  induction cs generalizing ts ts₀ with
  | nil => exact mirrors_pure hts
  | cons c rest ih =>
    rw [List.flatMap_cons, List.forall_mem_append] at ht
    unfold resolveClasses
    exact (mirrors_resolveClass hπ hπ₀ ht.1).bind fun t t₀ htable =>
      ih (MapsMirror.insert hts c.name htable) ht.2

end

end Checker

end Mutability
