import Mutability.Codec.Position
import Mutability.Json.Reader
import Mutability.Program

/-!
# Programs as JSON

Statements and expressions are tagged values, declarations are records. When a program is read,
lists, flags and everything that may be `null` can be left out; when it is written, every member is
there. The tag of an expression, which always stands inside a statement, may be the number of its
case.
-/

namespace Mutability

/-! ## Expressions -/

/-- The tags of expressions, in the order of their numbers. -/
def Expr.tags : List String :=
  ["this", "null", "literal", "var", "field_read", "new", "call", "static_call", "cast", "binary"]

/-- The tag that a value stands for. -/
def Expr.tag? : Json → Option String
  | .str tag => some tag
  | .num (.nat n) => Expr.tags[n]?
  | _ => none

def textOrNull (s : Option String) : Json :=
  .ofOption .str s

mutual

def Expr.toJson : Expr → Json
  | .self => .obj [("expr", .str "this")]
  | .null => .obj [("expr", .str "null")]
  | .literal host => .obj [("expr", .str "literal"), ("host", host.toJson)]
  | .var name => .obj [("expr", .str "var"), ("name", .str name)]
  | .fieldRead receiver field =>
    .obj [("expr", .str "field_read"), ("receiver", receiver.toJson), ("field", .str field)]
  | .create className qualifierText args =>
    .obj [("expr", .str "new"), ("class", .str className), ("qualifier", textOrNull qualifierText),
      ("args", .arr (Expr.listToJson args))]
  | .call receiver method args =>
    .obj [("expr", .str "call"), ("receiver", receiver.toJson), ("method", .str method),
      ("args", .arr (Expr.listToJson args))]
  | .staticCall className method args =>
    .obj [("expr", .str "static_call"), ("class", .str className), ("method", .str method),
      ("args", .arr (Expr.listToJson args))]
  | .cast host qualifierText operand =>
    .obj [("expr", .str "cast"), ("host", host.toJson), ("qualifier", textOrNull qualifierText),
      ("operand", operand.toJson)]
  | .binary host lhs rhs =>
    .obj [("expr", .str "binary"), ("host", host.toJson), ("lhs", lhs.toJson),
      ("rhs", rhs.toJson)]

def Expr.listToJson : List Expr → List Json
  | [] => []
  | e :: rest => e.toJson :: Expr.listToJson rest

end

/-- Reads an expression that is nested less than `fuel` deep. -/
def Expr.readWithin : Nat → Json → Option Expr
  | 0, _ => none
  | fuel + 1, j => do
    let (tag, rest) ← j.tagged? "expr"
    let expr? : Json → Option Expr := Expr.readWithin fuel
    match ← Expr.tag? tag with
    | "this" => if rest.isNoMembers then some .self else none
    | "null" => if rest.isNoMembers then some .null else none
    | "literal" => do
      let [host] ← rest.record? ["host"] | none
      return .literal (← host.required (HostType.read? true))
    | "var" => do
      let [name] ← rest.record? ["name"] | none
      return .var (← name.required Json.string?)
    | "field_read" => do
      let [receiver, field] ← rest.record? ["receiver", "field"] | none
      return .fieldRead (← receiver.required expr?) (← field.required Json.string?)
    | "new" => do
      let [className, qualifierText, args] ← rest.record? ["class", "qualifier", "args"] | none
      return .create (← className.required Json.string?) (← qualifierText.optional Json.string?)
        (← args.withDefault [] (Json.list? expr?))
    | "call" => do
      let [receiver, method, args] ← rest.record? ["receiver", "method", "args"] | none
      return .call (← receiver.required expr?) (← method.required Json.string?)
        (← args.withDefault [] (Json.list? expr?))
    | "static_call" => do
      let [className, method, args] ← rest.record? ["class", "method", "args"] | none
      return .staticCall (← className.required Json.string?) (← method.required Json.string?)
        (← args.withDefault [] (Json.list? expr?))
    | "cast" => do
      let [host, qualifierText, operand] ← rest.record? ["host", "qualifier", "operand"] | none
      return .cast (← host.required (HostType.read? true)) (← qualifierText.optional Json.string?)
        (← operand.required expr?)
    | "binary" => do
      let [host, lhs, rhs] ← rest.record? ["host", "lhs", "rhs"] | none
      return .binary (← host.required (HostType.read? true)) (← lhs.required expr?)
        (← rhs.required expr?)
    | _ => none

def Expr.ofJson? (j : Json) : Option Expr :=
  Expr.readWithin (j.depth + 1) j

/-! ## Statements -/

def Stmt.toJson : Stmt → Json
  | localVar name host qualifierText init =>
    .obj [("stmt", .str "local"), ("name", .str name), ("host", host.toJson),
      ("qualifier", textOrNull qualifierText), ("init", .ofOption Expr.toJson init)]
  | assign target value =>
    .obj [("stmt", .str "assign"), ("target", .str target), ("value", value.toJson)]
  | fieldWrite receiver field value =>
    .obj [("stmt", .str "field_write"), ("receiver", receiver.toJson), ("field", .str field),
      ("value", value.toJson)]
  | eval expr => .obj [("stmt", .str "expr"), ("expr", expr.toJson)]
  | exit value => .obj [("stmt", .str "return"), ("value", .ofOption Expr.toJson value)]

def Stmt.ofJson? (j : Json) : Option Stmt := do
  let (.str tag, rest) ← j.tagged? "stmt" | none
  match tag with
  | "local" => do
    let [name, host, qualifierText, init] ←
      rest.record? ["name", "host", "qualifier", "init"] | none
    return localVar (← name.required Json.string?) (← host.required (HostType.read? true))
      (← qualifierText.optional Json.string?) (← init.optional Expr.ofJson?)
  | "assign" => do
    let [target, value] ← rest.record? ["target", "value"] | none
    return assign (← target.required Json.string?) (← value.required Expr.ofJson?)
  | "field_write" => do
    let [receiver, field, value] ← rest.record? ["receiver", "field", "value"] | none
    return fieldWrite (← receiver.required Expr.ofJson?) (← field.required Json.string?)
      (← value.required Expr.ofJson?)
  | "expr" => do
    let [expr] ← rest.record? ["expr"] | none
    return eval (← expr.required Expr.ofJson?)
  | "return" => do
    let [value] ← rest.record? ["value"] | none
    return exit (← value.optional Expr.ofJson?)
  | _ => none

/-! ## Declarations -/

def FieldDecl.toJson (f : FieldDecl) : Json :=
  .obj [("name", .str f.name), ("host", f.host.toJson), ("qualifier", textOrNull f.qualifierText),
    ("is_static", .bool f.isStatic), ("is_final", .bool f.isFinal),
    ("assignable", .bool f.isAssignable)]

def FieldDecl.ofJson? (j : Json) : Option FieldDecl := do
  let [name, host, qualifierText, isStatic, isFinal, isAssignable] ←
    j.record? ["name", "host", "qualifier", "is_static", "is_final", "assignable"] | none
  return {
    name := ← name.required Json.string?
    host := ← host.required HostType.ofJson?
    qualifierText := ← qualifierText.optional Json.string?
    isStatic := ← isStatic.withDefault false Json.bool?
    isFinal := ← isFinal.withDefault false Json.bool?
    isAssignable := ← isAssignable.withDefault false Json.bool? }

def ParamDecl.toJson (p : ParamDecl) : Json :=
  .obj [("name", .str p.name), ("host", p.host.toJson), ("qualifier", textOrNull p.qualifierText)]

def ParamDecl.ofJson? (j : Json) : Option ParamDecl := do
  let [name, host, qualifierText] ← j.record? ["name", "host", "qualifier"] | none
  return {
    name := ← name.required Json.string?
    host := ← host.required HostType.ofJson?
    qualifierText := ← qualifierText.optional Json.string? }

def ConstructorDecl.toJson (c : ConstructorDecl) : Json :=
  .obj [("qualifier", textOrNull c.qualifierText), ("params", .ofList ParamDecl.toJson c.params),
    ("body", .ofList Stmt.toJson c.body)]

def ConstructorDecl.ofJson? (j : Json) : Option ConstructorDecl := do
  let [qualifierText, params, body] ← j.record? ["qualifier", "params", "body"] | none
  return {
    qualifierText := ← qualifierText.optional Json.string?
    params := ← params.withDefault [] (Json.list? ParamDecl.ofJson?)
    body := ← body.withDefault [] (Json.list? Stmt.ofJson?) }

def MethodDecl.toJson (m : MethodDecl) : Json :=
  .obj [("name", .str m.name), ("is_static", .bool m.isStatic),
    ("receiver", textOrNull m.receiverText), ("params", .ofList ParamDecl.toJson m.params),
    ("returns", .ofOption HostType.toJson m.returns),
    ("return_qualifier", textOrNull m.returnText), ("body", .ofList Stmt.toJson m.body)]

def MethodDecl.ofJson? (j : Json) : Option MethodDecl := do
  let [name, isStatic, receiver, params, returns, returnText, body] ←
    j.record? ["name", "is_static", "receiver", "params", "returns", "return_qualifier", "body"]
    | none
  return {
    name := ← name.required Json.string?
    isStatic := ← isStatic.withDefault false Json.bool?
    receiverText := ← receiver.optional Json.string?
    params := ← params.withDefault [] (Json.list? ParamDecl.ofJson?)
    returns := ← returns.optional HostType.ofJson?
    returnText := ← returnText.optional Json.string?
    body := ← body.withDefault [] (Json.list? Stmt.ofJson?) }

def ClassDecl.toJson (c : ClassDecl) : Json :=
  .obj [("name", .str c.name), ("fields", .ofList FieldDecl.toJson c.fields),
    ("constructors", .ofList ConstructorDecl.toJson c.constructors),
    ("methods", .ofList MethodDecl.toJson c.methods)]

def ClassDecl.ofJson? (j : Json) : Option ClassDecl := do
  let [name, fields, constructors, methods] ←
    j.record? ["name", "fields", "constructors", "methods"] | none
  return {
    name := ← name.required Json.string?
    fields := ← fields.withDefault [] (Json.list? FieldDecl.ofJson?)
    constructors := ← constructors.withDefault [] (Json.list? ConstructorDecl.ofJson?)
    methods := ← methods.withDefault [] (Json.list? MethodDecl.ofJson?) }

/-! ## Programs -/

def Program.toJson (p : Program) : Json :=
  .obj [("classes", .ofList ClassDecl.toJson p.classes)]

def Program.ofJson? (j : Json) : Option Program := do
  let [classes] ← j.record? ["classes"] | none
  return ⟨← classes.withDefault [] (Json.list? ClassDecl.ofJson?)⟩

def Program.ofText? (text : String) : Option Program :=
  Json.parse? text >>= Program.ofJson?

end Mutability
