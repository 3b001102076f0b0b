import Mutability.Proofs.TableRuns

/-!
# The typing judgement

What it means for a program to be well typed, said without tables, reports or faults. A reference to
a member is resolved in the declarations themselves: the class with the name, the last declaration
of a field, the first constructor or method with the number of parameters. `HasType` gives an
expression its type and qualifier, and has one rule for each form; a rule carries the obligation
that its form has to meet, and the rules of the parts carry theirs. `StmtTyped` says in addition how
a statement changes the variables, and `BodyTyped` takes them through a body in order.

A variable whose declaration is annotated keeps its qualifier, and only takes values that fit; any
other one takes the qualifier of its last value (`Assigns`).
-/

namespace Mutability

namespace Typing

/-! ## Declarations -/

section

variable (cfg : Configuration)

/-- The annotation, if there is one, is known, and may be written at such a position. -/
structure Legal (kind : Position.Kind) (host : HostType) (text : Option String)
    (written : Option Qualifier) : Prop where
  resolves : (Policy.ofConfiguration cfg).resolve? text = .ok written
  permitted : (Position.written kind host written).illegality? cfg = none

/-- A declared position with a legal annotation, if any, ends up with the qualifier `q`. -/
def Declares (kind : Position.Kind) (host : HostType) (text : Option String) (q : Qualifier) :
    Prop :=
  ∃ written, Legal cfg kind host text written ∧
    (Policy.ofConfiguration cfg).qualifierOf (.written kind host written) = .ok q

/-- The qualifiers of the parameters of a method, numbered from an index on. -/
inductive DeclaresParams (method : String) : Nat → List ParamDecl → List Qualifier → Prop
  | nil {index : Nat} : DeclaresParams method index [] []
  | cons {index : Nat} {p : ParamDecl} {q : Qualifier} {ps : List ParamDecl}
      {qs : List Qualifier} :
      Declares cfg (.parameter method index) p.host p.qualifierText q →
      DeclaresParams method (index + 1) ps qs →
      DeclaresParams method index (p :: ps) (q :: qs)

/-- What the rules know about a declared field. -/
def DeclaresField (f : FieldDecl) (field : Field) : Prop :=
  ∃ q, Declares cfg f.kind f.host f.qualifierText q ∧
    field = .ofDeclaration f.name q (.ofModifiers f.isFinal f.isAssignable) f.isStatic

/-- The return and the parameters of a constructor. -/
structure DeclaresConstructor (c : ClassDecl) (k : ConstructorDecl) (ret : Qualifier)
    (params : List Qualifier) : Prop where
  ret : Declares cfg .constructorReturn c.host k.qualifierText ret
  params : DeclaresParams cfg Checker.constructorName 0 k.params params

/-- The receiver of a method. A static method has none, whatever is written there. -/
def DeclaresReceiver (c : ClassDecl) (m : MethodDecl) : Option Qualifier → Prop
  | none => m.isStatic = true
  | some q => m.isStatic = false ∧ Declares cfg (.receiver m.name) c.host m.receiverText q

/-- The return of a method. A method without a value has none, whatever is written there. -/
def DeclaresReturn (m : MethodDecl) (q : Qualifier) : Prop :=
  match m.returns with
  | none => q = .bottom
  | some host => Declares cfg (.methodReturn m.name) host m.returnText q

/-- The signature of a method. -/
structure DeclaresMethod (c : ClassDecl) (m : MethodDecl) (σ : Signature) : Prop where
  name : σ.name = m.name
  isStatic : σ.isStatic = m.isStatic
  receiver : DeclaresReceiver cfg c m σ.receiver
  params : DeclaresParams cfg m.name 0 m.params σ.params
  ret : DeclaresReturn cfg m σ.ret

end

/-! ## Expressions -/

/-- A variable: its type, whether its declaration is annotated, and its present qualifier. -/
structure Variable where
  host : HostType
  isFixed : Bool
  qualifier : Qualifier
deriving DecidableEq, Repr

/-- The variables in scope. -/
def Vars : Type := String → Option Variable

namespace Vars

def empty : Vars := fun _ => none

/-- The variables with `x` declared or changed. -/
def set (Γ : Vars) (x : String) (v : Variable) : Vars :=
  fun y => if y = x then some v else Γ y

/-- The variables with the parameters of a member declared, a later one of a name in place of an
earlier one. -/
def bind (Γ : Vars) : List ParamDecl → List Qualifier → Vars
  | p :: ps, q :: qs => (Γ.set p.name ⟨p.host, p.qualifierText.isSome, q⟩).bind ps qs
  | _, _ => Γ

end Vars

/-- The member in which a body stands. -/
structure Member where
  owner : String
  /-- The qualifier of the receiver; a static method has none. -/
  receiver : Option Qualifier
  inConstructor : Bool
  /-- The qualifier of the return; a member without a value has none. -/
  returns : Option Qualifier

/-- How a field with a declared qualifier is seen through a receiver: a dependant one as the
receiver, any other as it is declared. -/
inductive SeenThrough (receiver : Qualifier) : Qualifier → Qualifier → Prop
  | dependant : SeenThrough receiver .receiverDependant receiver
  | fixed {declared : Qualifier} : declared ≠ .receiverDependant →
      SeenThrough receiver declared declared

mutual

/-- `HasType cfg p M Γ e host q`: in the member `M` of the program `p`, with the variables `Γ`, the
expression `e` has the type `host` and the qualifier `q`. -/
inductive HasType (cfg : Configuration) (p : Program) (M : Member) (Γ : Vars) :
    Expr → HostType → Qualifier → Prop
  | self {q : Qualifier} : M.receiver = some q →
      HasType cfg p M Γ .self (.declared M.owner) q
  | null : HasType cfg p M Γ .null .null .bottom
  | literal {host : HostType} :
      HasType cfg p M Γ (.literal host) host (cfg.settled host cfg.defaultQualifier)
  | var {x : String} {v : Variable} : Γ x = some v →
      HasType cfg p M Γ (.var x) v.host v.qualifier
  | staticField {e : Expr} {c : ClassDecl} {r : Qualifier} {name : String} {f : FieldDecl}
      {field : Field} : HasType cfg p M Γ e (.declared c.name) r → c ∈ p.classes →
      c.field? name = some f → DeclaresField cfg f field → f.isStatic = true →
      HasType cfg p M Γ (.fieldRead e name) f.host field.declared
  | instanceField {e : Expr} {c : ClassDecl} {r q : Qualifier} {name : String} {f : FieldDecl}
      {field : Field} : HasType cfg p M Γ e (.declared c.name) r → c ∈ p.classes →
      c.field? name = some f → DeclaresField cfg f field → f.isStatic = false →
      SeenThrough r field.declared q → HasType cfg p M Γ (.fieldRead e name) f.host q
  /-- An object is created as its constructor returns it, never `readonly`, and the arguments fit
  the parameters adapted to that qualifier. -/
  | create {c : ClassDecl} {k : ConstructorDecl} {ret : Qualifier} {params : List Qualifier}
      {text : Option String} {requested : Option Qualifier} {args : List Expr}
      {qs : List Qualifier} : c ∈ p.classes → c.constructor? args.length = some k →
      DeclaresConstructor cfg c k ret params →
      Legal cfg .newObject (.declared c.name) text requested → HaveTypes cfg p M Γ args qs →
      requested.getD ret = ret → ret ≠ .readonly →
      List.Forall₂ (fun a q => a ≤ Viewpoint.adaptInvocation ret q) qs params →
      HasType cfg p M Γ (.create c.name text args) (.declared c.name) ret
  /-- The receiver and the arguments fit the signature seen through the receiver. -/
  | call {e : Expr} {c : ClassDecl} {r : Qualifier} {name : String} {m : MethodDecl}
      {σ : Signature} {args : List Expr} {qs : List Qualifier} :
      HasType cfg p M Γ e (.declared c.name) r → c ∈ p.classes →
      c.method? name args.length = some m → DeclaresMethod cfg c m σ →
      HaveTypes cfg p M Γ args qs →
      (∀ required, (σ.seenFrom (some r)).receiver = some required → r ≤ required) →
      List.Forall₂ (· ≤ ·) qs (σ.seenFrom (some r)).params →
      HasType cfg p M Γ (.call e name args) (m.returns.getD .null) (σ.seenFrom (some r)).ret
  /-- The arguments fit the signature with its placeholder bound to their join. -/
  | staticCall {c : ClassDecl} {name : String} {m : MethodDecl} {σ : Signature}
      {args : List Expr} {qs : List Qualifier} : c ∈ p.classes →
      c.method? name args.length = some m → DeclaresMethod cfg c m σ →
      HaveTypes cfg p M Γ args qs →
      List.Forall₂ (· ≤ ·) qs ((σ.seenFrom none).bind qs).signature.params →
      HasType cfg p M Γ (.staticCall c.name name args) (m.returns.getD .null)
        ((σ.seenFrom none).bind qs).signature.ret
  /-- A cast has the qualifier that is written on it, and else that of its operand. -/
  | cast {host operandHost : HostType} {text : Option String} {written : Option Qualifier}
      {e : Expr} {q : Qualifier} : HasType cfg p M Γ e operandHost q →
      Legal cfg .cast host text written →
      HasType cfg p M Γ (.cast host text e) host (written.getD (cfg.settled host q))
  | binary {host lhsHost rhsHost : HostType} {lhs rhs : Expr} {l r : Qualifier} :
      HasType cfg p M Γ lhs lhsHost l → HasType cfg p M Γ rhs rhsHost r →
      HasType cfg p M Γ (.binary host lhs rhs) host (cfg.settled host (l.join r))

/-- The qualifiers of the arguments of a call. -/
inductive HaveTypes (cfg : Configuration) (p : Program) (M : Member) (Γ : Vars) :
    List Expr → List Qualifier → Prop
  | nil : HaveTypes cfg p M Γ [] []
  | cons {e : Expr} {host : HostType} {q : Qualifier} {es : List Expr} {qs : List Qualifier} :
      HasType cfg p M Γ e host q → HaveTypes cfg p M Γ es qs →
      HaveTypes cfg p M Γ (e :: es) (q :: qs)

end

theorem HaveTypes.length_eq {cfg : Configuration} {p : Program} {M : Member} {Γ : Vars}
    {args : List Expr} {qs : List Qualifier} (h : HaveTypes cfg p M Γ args qs) :
    qs.length = args.length := by
  induction args generalizing qs with
  | nil => cases h; rfl
  | cons e rest ih =>
    cases h with
    | cons _ hrest => rw [List.length_cons, List.length_cons, ih hrest]

/-! ## Statements -/

/-- A variable before and after a value with the qualifier `q` is assigned to it. -/
inductive Assigns (cfg : Configuration) (q : Qualifier) : Variable → Variable → Prop
  | fixed {v : Variable} : v.isFixed = true → q ≤ v.qualifier → Assigns cfg q v v
  | tracked {v : Variable} : v.isFixed = false →
      Assigns cfg q v { v with qualifier := cfg.settled v.host q }

theorem assigns_iff {cfg : Configuration} {q : Qualifier} {v v' : Variable} :
    Assigns cfg q v v' ↔
      if v.isFixed then q ≤ v.qualifier ∧ v' = v
      else v' = { v with qualifier := cfg.settled v.host q } := by
  constructor
  · intro h
    cases h with
    | fixed hf hq => rw [if_pos hf]; exact ⟨hq, rfl⟩
    | tracked hf => rw [hf]; rfl
  · intro h
    cases hf : v.isFixed with
    | true =>
      rw [if_pos hf] at h
      obtain ⟨hq, rfl⟩ := h
      exact .fixed hf hq
    | false =>
      rw [if_neg (by rw [hf]; decide)] at h
      rw [h]
      exact .tracked hf

/-- When a field may be written through a receiver qualified `r`. -/
inductive MayWrite (M : Member) (f : FieldDecl) (receiver : Expr) (r : Qualifier) : Prop
  | assignable : f.isFinal = false → f.isAssignable = true → MayWrite M f receiver r
  | initializer : f.isFinal = true → M.inConstructor = true → receiver = .self →
      MayWrite M f receiver r
  | static : f.isFinal = false → f.isStatic = true → MayWrite M f receiver r
  | mutable : f.isFinal = false → r = .mutable → MayWrite M f receiver r

/-- `StmtTyped cfg p M Γ stmt Γ'`: the statement meets its obligations with the variables `Γ` and
leaves the variables `Γ'`. -/
inductive StmtTyped (cfg : Configuration) (p : Program) (M : Member) : Vars → Stmt → Vars → Prop
  | localVar {Γ : Vars} {x : String} {host : HostType} {text : Option String} {q : Qualifier} :
      Declares cfg .localVariable host text q →
      StmtTyped cfg p M Γ (.localVar x host text none) (Γ.set x ⟨host, text.isSome, q⟩)
  | initialized {Γ : Vars} {x : String} {host valueHost : HostType} {text : Option String}
      {q value : Qualifier} {e : Expr} {v : Variable} :
      Declares cfg .localVariable host text q → HasType cfg p M Γ e valueHost value →
      Assigns cfg value ⟨host, text.isSome, q⟩ v →
      StmtTyped cfg p M Γ (.localVar x host text (some e)) (Γ.set x v)
  | assign {Γ : Vars} {x : String} {valueHost : HostType} {value : Qualifier} {e : Expr}
      {v v' : Variable} : Γ x = some v → HasType cfg p M Γ e valueHost value →
      Assigns cfg value v v' → StmtTyped cfg p M Γ (.assign x e) (Γ.set x v')
  /-- A static field is not viewed through any receiver. -/
  | fieldWrite {Γ : Vars} {receiver e : Expr} {c : ClassDecl} {r value required : Qualifier}
      {name : String} {f : FieldDecl} {field : Field} {valueHost : HostType} :
      HasType cfg p M Γ receiver (.declared c.name) r → c ∈ p.classes →
      c.field? name = some f → DeclaresField cfg f field → HasType cfg p M Γ e valueHost value →
      MayWrite M f receiver r →
      SeenThrough (if f.isStatic then .mutable else r) field.declared required →
      value ≤ required → StmtTyped cfg p M Γ (.fieldWrite receiver name e) Γ
  | eval {Γ : Vars} {e : Expr} {host : HostType} {q : Qualifier} : HasType cfg p M Γ e host q →
      StmtTyped cfg p M Γ (.eval e) Γ
  | exit {Γ : Vars} : StmtTyped cfg p M Γ (.exit none) Γ
  | exitWith {Γ : Vars} {e : Expr} {host : HostType} {q : Qualifier} :
      HasType cfg p M Γ e host q → (∀ required, M.returns = some required → q ≤ required) →
      StmtTyped cfg p M Γ (.exit (some e)) Γ

/-- The statements of a body meet their obligations in order. -/
inductive BodyTyped (cfg : Configuration) (p : Program) (M : Member) : Vars → List Stmt → Prop
  | nil {Γ : Vars} : BodyTyped cfg p M Γ []
  | cons {Γ Γ' : Vars} {stmt : Stmt} {rest : List Stmt} : StmtTyped cfg p M Γ stmt Γ' →
      BodyTyped cfg p M Γ' rest → BodyTyped cfg p M Γ (stmt :: rest)

/-! ## Programs -/

/-- A constructor returns one of the qualifiers that are possible for new objects, an `immutable`
one takes no `mutable` parameter, and its body is well typed. -/
def ConstructorTyped (cfg : Configuration) (p : Program) (c : ClassDecl) (k : ConstructorDecl) :
    Prop :=
  ∃ ret params, DeclaresConstructor cfg c k ret params ∧ ret ∈ Construction.returnQualifiers ∧
    (ret = .immutable → .mutable ∉ params) ∧
    BodyTyped cfg p ⟨c.name, some ret, true, none⟩ (Vars.empty.bind k.params params) k.body

/-- A method has a signature, and its body is well typed. -/
def MethodTyped (cfg : Configuration) (p : Program) (c : ClassDecl) (m : MethodDecl) : Prop :=
  ∃ σ, DeclaresMethod cfg c m σ ∧
    BodyTyped cfg p ⟨c.name, σ.receiver, false, if m.returns.isSome then some σ.ret else none⟩
      (Vars.empty.bind m.params σ.params) m.body

/-- Every declaration of the program is legal and every body is well typed. -/
structure WellTyped (cfg : Configuration) (p : Program) : Prop where
  fields : ∀ c ∈ p.classes, ∀ f ∈ c.fields, ∃ field, DeclaresField cfg f field
  constructors : ∀ c ∈ p.classes, ∀ k ∈ c.constructors, ConstructorTyped cfg p c k
  methods : ∀ c ∈ p.classes, ∀ m ∈ c.methods, MethodTyped cfg p c m

end Typing

end Mutability
