import Mutability.Proofs.CheckerSteps
import Mutability.Proofs.Variations

/-!
# Reading undoes writing

A program is read from what is written for it and from every variation of that
(`program_read_from_variations`). Each kind of part has its own lemma `reads`, which says so for the
part. Host types and expressions are read with fuel, so there the induction is on the fuel: a value
that is less deep than there is fuel is read, and the values of its members are less deep again.

Tagged values are only looked at if nothing in them was skipped, so a program is a variation of
itself because what is written for it is complete (`Program.isComplete_toJson`).
-/

namespace Mutability

open Json

/-! ## Host types -/

theorem Primitive.reads (insideTagged : Bool) (bound : Nat) (p : Primitive) :
    Reads bound (Primitive.read? insideTagged) p.toJson p := by
  intro j' h _
  cases p <;> cases h <;> rfl

namespace HostType

theorem isDefault_toJson (host : HostType) : host.toJson.isDefault = false := by
  cases host <;> rfl

theorem reads_readWithin (insideTagged : Bool) (fuel : Nat) (host : HostType) :
    Reads fuel (HostType.readWithin insideTagged fuel) host.toJson host := by
  induction fuel generalizing host with
  | zero =>
    intro j' _ hdepth
    omega
  | succ fuel ih =>
    intro j' h hdepth
    cases host with
    | primitive p =>
      obtain ⟨p', rfl, hp, -⟩ := h.exists_payload rfl
      have hread := Primitive.reads insideTagged _ p p' hp (Nat.lt_succ_self _)
      simp [HostType.readWithin, Json.case?, hread]
    | boxed p =>
      obtain ⟨p', rfl, hp, -⟩ := h.exists_payload rfl
      have hread := Primitive.reads insideTagged _ p p' hp (Nat.lt_succ_self _)
      simp [HostType.readWithin, Json.case?, hread]
    | declared name =>
      obtain ⟨_, rfl, hname, -⟩ := h.exists_payload rfl
      cases hname
      rfl
    | array element =>
      obtain ⟨e', rfl, he, hlt⟩ := h.exists_payload rfl
      have hread := ih element e' he (by omega)
      simp [HostType.readWithin, Json.case?, hread]
    | typeVariable name =>
      obtain ⟨_, rfl, hname, -⟩ := h.exists_payload rfl
      cases hname
      rfl
    | null =>
      cases h
      rfl

theorem reads (insideTagged : Bool) (bound : Nat) (host : HostType) :
    Reads bound (HostType.read? insideTagged) host.toJson host := by
  intro j' h _
  exact reads_readWithin insideTagged (j'.depth + 1) host j' h (Nat.lt_succ_self _)

theorem reads_ofJson? (bound : Nat) (host : HostType) :
    Reads bound HostType.ofJson? host.toJson host :=
  reads false bound host

end HostType

/-! ## Expressions -/

namespace Expr

theorem isDefault_toJson (e : Expr) : e.toJson.isDefault = false := by
  cases e <;> rfl

theorem listToJson_eq (es : List Expr) : Expr.listToJson es = es.map Expr.toJson := by
  induction es with
  | nil => rfl
  | cons e rest ih => rw [Expr.listToJson, ih, List.map_cons]

theorem args_of_holds {bound : Nat} {s : Json.Slot} {read : Json → Option Expr} {args : List Expr}
    (h : Json.Slot.Holds bound (.arr (Expr.listToJson args)) s)
    (hread : ∀ e, Reads bound read e.toJson e) : s.withDefault [] (list? read) = some args := by
  rw [listToJson_eq] at h
  exact @Json.Slot.Holds.list _ _ _ Expr.toJson _ _ h fun e _ => hread e

theorem reads_readWithin (fuel : Nat) (e : Expr) :
    Reads fuel (Expr.readWithin fuel) e.toJson e := by
  induction fuel generalizing e with
  | zero =>
    intro j' _ hdepth
    omega
  | succ fuel ih =>
    intro j' h hdepth
    replace hdepth : j'.depth ≤ fuel := by omega
    cases e with
    | self =>
      obtain ⟨_, _, htag, hnone, -⟩ := tagged?_of_varies fuel [] rfl (by decide) rfl h hdepth
      rw [Expr.readWithin, htag]
      dsimp only [bind, Option.bind, Expr.tag?]
      simp [hnone]
    | null =>
      obtain ⟨_, _, htag, hnone, -⟩ := tagged?_of_varies fuel [] rfl (by decide) rfl h hdepth
      rw [Expr.readWithin, htag]
      dsimp only [bind, Option.bind, Expr.tag?]
      simp [hnone]
    | literal host =>
      obtain ⟨_, _, htag, -, hrecord, _ | ⟨hhost, _ | _⟩⟩ :=
        tagged?_of_varies fuel ["host"] rfl (by decide) rfl h hdepth
      rw [Expr.readWithin, htag]
      dsimp only [bind, Option.bind, Expr.tag?]
      simp [hrecord, hhost.required host.isDefault_toJson (host.reads true fuel)]
    | var name =>
      obtain ⟨_, _, htag, -, hrecord, _ | ⟨hname, _ | _⟩⟩ :=
        tagged?_of_varies fuel ["name"] rfl (by decide) rfl h hdepth
      rw [Expr.readWithin, htag]
      dsimp only [bind, Option.bind, Expr.tag?]
      simp [hrecord, hname.text]
    | fieldRead receiver field =>
      obtain ⟨_, _, htag, -, hrecord, _ | ⟨hreceiver, _ | ⟨hfield, _ | _⟩⟩⟩ :=
        tagged?_of_varies fuel ["receiver", "field"] rfl (by decide) rfl h hdepth
      rw [Expr.readWithin, htag]
      dsimp only [bind, Option.bind, Expr.tag?]
      simp [hrecord, hfield.text, hreceiver.required receiver.isDefault_toJson (ih receiver)]
    | create className qualifierText args =>
      obtain ⟨_, _, htag, -, hrecord, _ | ⟨hclass, _ | ⟨hqualifier, _ | ⟨hargs, _ | _⟩⟩⟩⟩ :=
        tagged?_of_varies fuel ["class", "qualifier", "args"] rfl (by decide) rfl h hdepth
      rw [Expr.readWithin, htag]
      dsimp only [bind, Option.bind, Expr.tag?]
      simp [hrecord, hclass.text, hqualifier.optionalText, args_of_holds hargs ih]
    | call receiver method args =>
      obtain ⟨_, _, htag, -, hrecord, _ | ⟨hreceiver, _ | ⟨hmethod, _ | ⟨hargs, _ | _⟩⟩⟩⟩ :=
        tagged?_of_varies fuel ["receiver", "method", "args"] rfl (by decide) rfl h hdepth
      rw [Expr.readWithin, htag]
      dsimp only [bind, Option.bind, Expr.tag?]
      simp [hrecord, hmethod.text, args_of_holds hargs ih,
        hreceiver.required receiver.isDefault_toJson (ih receiver)]
    | staticCall className method args =>
      obtain ⟨_, _, htag, -, hrecord, _ | ⟨hclass, _ | ⟨hmethod, _ | ⟨hargs, _ | _⟩⟩⟩⟩ :=
        tagged?_of_varies fuel ["class", "method", "args"] rfl (by decide) rfl h hdepth
      rw [Expr.readWithin, htag]
      dsimp only [bind, Option.bind, Expr.tag?]
      simp [hrecord, hclass.text, hmethod.text, args_of_holds hargs ih]
    | cast host qualifierText operand =>
      obtain ⟨_, _, htag, -, hrecord, _ | ⟨hhost, _ | ⟨hqualifier, _ | ⟨hoperand, _ | _⟩⟩⟩⟩ :=
        tagged?_of_varies fuel ["host", "qualifier", "operand"] rfl (by decide) rfl h hdepth
      rw [Expr.readWithin, htag]
      dsimp only [bind, Option.bind, Expr.tag?]
      simp [hrecord, hqualifier.optionalText,
        hhost.required host.isDefault_toJson (host.reads true fuel),
        hoperand.required operand.isDefault_toJson (ih operand)]
    | binary host lhs rhs =>
      obtain ⟨_, _, htag, -, hrecord, _ | ⟨hhost, _ | ⟨hlhs, _ | ⟨hrhs, _ | _⟩⟩⟩⟩ :=
        tagged?_of_varies fuel ["host", "lhs", "rhs"] rfl (by decide) rfl h hdepth
      rw [Expr.readWithin, htag]
      dsimp only [bind, Option.bind, Expr.tag?]
      simp [hrecord, hhost.required host.isDefault_toJson (host.reads true fuel),
        hlhs.required lhs.isDefault_toJson (ih lhs), hrhs.required rhs.isDefault_toJson (ih rhs)]

/-- An expression is read from each of its variations. -/
theorem reads (bound : Nat) (e : Expr) : Reads bound Expr.ofJson? e.toJson e := by
  intro j' h _
  exact reads_readWithin (j'.depth + 1) e j' h (Nat.lt_succ_self _)

end Expr

/-! ## Statements -/

theorem Stmt.reads (bound : Nat) (s : Stmt) : Reads bound Stmt.ofJson? s.toJson s := by
  intro j' h _
  cases s with
  | localVar name host qualifierText init =>
    obtain ⟨_, _, htag, -, hrecord,
        _ | ⟨hname, _ | ⟨hhost, _ | ⟨hqualifier, _ | ⟨hinit, _ | _⟩⟩⟩⟩⟩ :=
      tagged?_of_varies j'.depth ["name", "host", "qualifier", "init"] rfl (by decide) rfl h
        (Nat.le_refl _)
    rw [Stmt.ofJson?, htag]
    dsimp only [bind, Option.bind]
    simp [hrecord, hname.text, hqualifier.optionalText,
      hhost.required host.isDefault_toJson (host.reads true _),
      hinit.optional Expr.isDefault_toJson fun e _ => e.reads _]
  | assign target value =>
    obtain ⟨_, _, htag, -, hrecord, _ | ⟨htarget, _ | ⟨hvalue, _ | _⟩⟩⟩ :=
      tagged?_of_varies j'.depth ["target", "value"] rfl (by decide) rfl h (Nat.le_refl _)
    rw [Stmt.ofJson?, htag]
    dsimp only [bind, Option.bind]
    simp [hrecord, htarget.text, hvalue.required value.isDefault_toJson (value.reads _)]
  | fieldWrite receiver field value =>
    obtain ⟨_, _, htag, -, hrecord, _ | ⟨hreceiver, _ | ⟨hfield, _ | ⟨hvalue, _ | _⟩⟩⟩⟩ :=
      tagged?_of_varies j'.depth ["receiver", "field", "value"] rfl (by decide) rfl h
        (Nat.le_refl _)
    rw [Stmt.ofJson?, htag]
    dsimp only [bind, Option.bind]
    simp [hrecord, hfield.text,
      hreceiver.required receiver.isDefault_toJson (receiver.reads _),
      hvalue.required value.isDefault_toJson (value.reads _)]
  | eval expr =>
    obtain ⟨_, _, htag, -, hrecord, _ | ⟨hexpr, _ | _⟩⟩ :=
      tagged?_of_varies j'.depth ["expr"] rfl (by decide) rfl h (Nat.le_refl _)
    rw [Stmt.ofJson?, htag]
    dsimp only [bind, Option.bind]
    simp [hrecord, hexpr.required expr.isDefault_toJson (expr.reads _)]
  | exit value =>
    obtain ⟨_, _, htag, -, hrecord, _ | ⟨hvalue, _ | _⟩⟩ :=
      tagged?_of_varies j'.depth ["value"] rfl (by decide) rfl h (Nat.le_refl _)
    rw [Stmt.ofJson?, htag]
    dsimp only [bind, Option.bind]
    simp [hrecord, hvalue.optional Expr.isDefault_toJson fun e _ => e.reads _]

/-! ## Declarations -/

theorem FieldDecl.reads (bound : Nat) (f : FieldDecl) :
    Reads bound FieldDecl.ofJson? f.toJson f := by
  intro j' h _
  obtain ⟨_, hrecord, _ | ⟨hname, _ | ⟨hhost, _ | ⟨hqualifier, _ | ⟨hstatic, _ | ⟨hfinal,
      _ | ⟨hassignable, _ | _⟩⟩⟩⟩⟩⟩⟩ :=
    record?_of_varies ["name", "host", "qualifier", "is_static", "is_final", "assignable"] rfl
      (by decide) rfl h
  rw [FieldDecl.ofJson?, hrecord]
  dsimp only [bind, Option.bind]
  simp [hname.text, hqualifier.optionalText, hstatic.flag, hfinal.flag, hassignable.flag,
    hhost.required f.host.isDefault_toJson (f.host.reads_ofJson? _)]

theorem ParamDecl.reads (bound : Nat) (p : ParamDecl) :
    Reads bound ParamDecl.ofJson? p.toJson p := by
  intro j' h _
  obtain ⟨_, hrecord, _ | ⟨hname, _ | ⟨hhost, _ | ⟨hqualifier, _ | _⟩⟩⟩⟩ :=
    record?_of_varies ["name", "host", "qualifier"] rfl (by decide) rfl h
  rw [ParamDecl.ofJson?, hrecord]
  dsimp only [bind, Option.bind]
  simp [hname.text, hqualifier.optionalText,
    hhost.required p.host.isDefault_toJson (p.host.reads_ofJson? _)]

theorem ConstructorDecl.reads (bound : Nat) (c : ConstructorDecl) :
    Reads bound ConstructorDecl.ofJson? c.toJson c := by
  intro j' h _
  obtain ⟨_, hrecord, _ | ⟨hqualifier, _ | ⟨hparams, _ | ⟨hbody, _ | _⟩⟩⟩⟩ :=
    record?_of_varies ["qualifier", "params", "body"] rfl (by decide) rfl h
  rw [ConstructorDecl.ofJson?, hrecord]
  dsimp only [bind, Option.bind]
  simp [hqualifier.optionalText, hparams.list fun p _ => p.reads _,
    hbody.list fun s _ => s.reads _]

theorem MethodDecl.reads (bound : Nat) (m : MethodDecl) :
    Reads bound MethodDecl.ofJson? m.toJson m := by
  intro j' h _
  obtain ⟨_, hrecord, _ | ⟨hname, _ | ⟨hstatic, _ | ⟨hreceiver, _ | ⟨hparams, _ | ⟨hreturns,
      _ | ⟨hreturn, _ | ⟨hbody, _ | _⟩⟩⟩⟩⟩⟩⟩⟩ :=
    record?_of_varies ["name", "is_static", "receiver", "params", "returns", "return_qualifier",
      "body"] rfl (by decide) rfl h
  rw [MethodDecl.ofJson?, hrecord]
  dsimp only [bind, Option.bind]
  simp [hname.text, hstatic.flag, hreceiver.optionalText,
    hparams.list fun p _ => p.reads _, hreturn.optionalText, hbody.list fun s _ => s.reads _,
    hreturns.optional HostType.isDefault_toJson fun host _ => host.reads_ofJson? _]

theorem ClassDecl.reads (bound : Nat) (c : ClassDecl) :
    Reads bound ClassDecl.ofJson? c.toJson c := by
  intro j' h _
  obtain ⟨_, hrecord, _ | ⟨hname, _ | ⟨hfields, _ | ⟨hconstructors, _ | ⟨hmethods, _ | _⟩⟩⟩⟩⟩ :=
    record?_of_varies ["name", "fields", "constructors", "methods"] rfl (by decide) rfl h
  rw [ClassDecl.ofJson?, hrecord]
  dsimp only [bind, Option.bind]
  simp [hname.text, hfields.list fun f _ => f.reads _,
    hconstructors.list fun c _ => c.reads _, hmethods.list fun m _ => m.reads _]

/-! ## Written values are complete -/

theorem isComplete_textOrNull (o : Option String) : (textOrNull o).isComplete = true :=
  isComplete_ofOption (fun _ => rfl) o

theorem HostType.isComplete_toJson (host : HostType) : host.toJson.isComplete = true := by
  induction host with
  | array element ih => simp [HostType.toJson, isComplete, isCompleteMembers, ih]
  | _ => rfl

theorem Expr.isComplete_toJson (e : Expr) : e.toJson.isComplete = true := by
  have hargs : ∀ args : List Expr, (∀ a ∈ args, a.toJson.isComplete = true) →
      isCompleteItems (Expr.listToJson args) = true := by
    intro args h
    rw [listToJson_eq, isCompleteItems_iff]
    simpa using h
  induction e using Expr.inductionOn with
  | self => rfl
  | null => rfl
  | literal host => simp [Expr.toJson, isComplete, isCompleteMembers, host.isComplete_toJson]
  | var name => rfl
  | fieldRead receiver field ih => simp [Expr.toJson, isComplete, isCompleteMembers, ih]
  | create className text args ih =>
    simp [Expr.toJson, isComplete, isCompleteMembers, isComplete_textOrNull, hargs args ih]
  | call receiver method args ihr ih =>
    simp [Expr.toJson, isComplete, isCompleteMembers, ihr, hargs args ih]
  | staticCall className method args ih =>
    simp [Expr.toJson, isComplete, isCompleteMembers, hargs args ih]
  | cast host text operand ih =>
    simp [Expr.toJson, isComplete, isCompleteMembers, host.isComplete_toJson,
      isComplete_textOrNull, ih]
  | binary host lhs rhs ihl ihr =>
    simp [Expr.toJson, isComplete, isCompleteMembers, host.isComplete_toJson, ihl, ihr]

theorem Stmt.isComplete_toJson (s : Stmt) : s.toJson.isComplete = true := by
  have hvalue := isComplete_ofOption Expr.isComplete_toJson
  cases s <;>
    simp [Stmt.toJson, isComplete, isCompleteMembers, HostType.isComplete_toJson,
      Expr.isComplete_toJson, isComplete_textOrNull, hvalue]

theorem ParamDecl.isComplete_toJson (p : ParamDecl) : p.toJson.isComplete = true := by
  simp [ParamDecl.toJson, isComplete, isCompleteMembers, HostType.isComplete_toJson,
    isComplete_textOrNull]

theorem FieldDecl.isComplete_toJson (f : FieldDecl) : f.toJson.isComplete = true := by
  simp [FieldDecl.toJson, isComplete, isCompleteMembers, HostType.isComplete_toJson,
    isComplete_textOrNull]

theorem ConstructorDecl.isComplete_toJson (c : ConstructorDecl) :
    c.toJson.isComplete = true := by
  have hparams := isComplete_ofList fun p (_ : p ∈ c.params) => p.isComplete_toJson
  have hbody := isComplete_ofList fun s (_ : s ∈ c.body) => s.isComplete_toJson
  simp [ConstructorDecl.toJson, isComplete, isCompleteMembers, isComplete_textOrNull, hparams,
    hbody]

theorem MethodDecl.isComplete_toJson (m : MethodDecl) : m.toJson.isComplete = true := by
  have hparams := isComplete_ofList fun p (_ : p ∈ m.params) => p.isComplete_toJson
  have hbody := isComplete_ofList fun s (_ : s ∈ m.body) => s.isComplete_toJson
  have hreturns := isComplete_ofOption HostType.isComplete_toJson m.returns
  simp [MethodDecl.toJson, isComplete, isCompleteMembers, isComplete_textOrNull, hparams, hbody,
    hreturns]

theorem ClassDecl.isComplete_toJson (c : ClassDecl) : c.toJson.isComplete = true := by
  have hfields := isComplete_ofList fun f (_ : f ∈ c.fields) => f.isComplete_toJson
  have hconstructors := isComplete_ofList fun k (_ : k ∈ c.constructors) => k.isComplete_toJson
  have hmethods := isComplete_ofList fun m (_ : m ∈ c.methods) => m.isComplete_toJson
  simp [ClassDecl.toJson, isComplete, isCompleteMembers, hfields, hconstructors, hmethods]

theorem Program.isComplete_toJson (p : Program) : p.toJson.isComplete = true := by
  have hclasses := isComplete_ofList fun c (_ : c ∈ p.classes) => c.isComplete_toJson
  simp [Program.toJson, isComplete, isCompleteMembers, hclasses]

/-! ## Programs -/

theorem Program.reads (bound : Nat) (p : Program) : Reads bound Program.ofJson? p.toJson p := by
  intro j' h _
  obtain ⟨_, hrecord, _ | ⟨hclasses, _ | _⟩⟩ := record?_of_varies ["classes"] rfl (by decide) rfl h
  rw [Program.ofJson?, hrecord]
  dsimp only [bind, Option.bind]
  simp [hclasses.list fun c _ => c.reads _]

/-- A program is read from what is written for it, and from every variation of that: with the
members of the objects in another order, with members added that the objects do not have, and
without members that are there by default. -/
theorem program_read_from_variations (p : Program) :
    Program.ofJson? p.toJson = some p ∧
      ∀ j, Varies p.toJson j → Program.ofJson? j = some p := by
  have hread : ∀ j, Varies p.toJson j → Program.ofJson? j = some p :=
    fun j h => p.reads (j.depth + 1) j h (Nat.lt_succ_self _)
  exact ⟨hread _ (varies_self _ p.isComplete_toJson), hread⟩

/-- A class with a method that casts what it returns. -/
def unboxProgram : Program where
  classes := [{
    name := "Unbox"
    fields := []
    constructors := []
    methods := [{
      name := "get"
      isStatic := false
      receiverText := none
      params := []
      returns := some (.array (.primitive .int))
      returnText := some "@Readonly"
      body := [.exit (some (.cast (.array (.primitive .int)) none (.var "held")))] }] }]

/-- The class with the members of every object from last to first, with line numbers and a remark,
and without what is there by default. -/
def unboxVariation : Json :=
  .obj [("classes", .arr [.obj [
    ("remark", .obj [("expr", .null)]),
    ("methods", .arr [.obj [
      ("line", .ofNat 7),
      ("body", .arr [.obj [
        ("value", .obj [
          ("line", .ofNat 8),
          ("operand", .obj [("name", .str "held"), ("expr", .str "var")]),
          ("host", .obj [("array", .obj [("primitive", .str "int")])]),
          ("expr", .str "cast")]),
        ("stmt", .str "return")]]),
      ("return_qualifier", .str "@Readonly"),
      ("returns", .obj [("array", .obj [("primitive", .str "int")])]),
      ("name", .str "get")]]),
    ("name", .str "Unbox")]])]

theorem varies_unboxProgram : Varies unboxProgram.toJson unboxVariation := by
  have hints : Varies (HostType.array (.primitive .int)).toJson
      (.obj [("array", .obj [("primitive", .str "int")])]) :=
    .payload rfl (.payload rfl (.str "int"))
  have hheld : Varies (Expr.var "held").toJson
      (.obj [("name", .str "held"), ("expr", .str "var")]) :=
    @Varies.members _ _ [] _ rfl (.keep (.str _) (.keep (.str _) .nil)) (by simp)
      (List.reverse_perm _).symm
  refine @Varies.members _ _ [] _ rfl (.keep (.arr (.cons ?_ .nil)) .nil) (by simp) .rfl
  refine @Varies.members _ _ [("remark", .obj [("expr", .null)])] _ rfl
    (.keep (.str _) (.leave rfl (.leave rfl (.keep (.arr (.cons ?_ .nil)) .nil)))) ?_
    (List.reverse_perm _).symm
  · refine @Varies.members _ _ [("line", .ofNat 7)] _ rfl
      (.keep (.str _) (.leave rfl (.leave rfl (.leave rfl (.keep hints (.keep (.str _)
        (.keep (.arr (.cons ?_ .nil)) .nil))))))) (by simp [isComplete, Json.ofNat])
      (List.reverse_perm _).symm
    refine @Varies.members _ _ [] _ rfl (.keep (.str _) (.keep ?_ .nil)) (by simp)
      (List.reverse_perm _).symm
    exact @Varies.members _ _ [("line", .ofNat 8)] _ rfl
      (.keep (.str _) (.keep hints (.leave rfl (.keep hheld .nil))))
      (by simp [isComplete, Json.ofNat]) (List.reverse_perm _).symm
  · simp [isComplete, isCompleteMembers]

theorem program_read_from_variations_unboxProgram :
    Varies unboxProgram.toJson unboxVariation ∧
      Program.ofJson? unboxVariation = some unboxProgram :=
  ⟨varies_unboxProgram,
    (program_read_from_variations unboxProgram).2 unboxVariation varies_unboxProgram⟩

end Mutability
