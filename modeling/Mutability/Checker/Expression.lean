import Mutability.Checker.Table
import Mutability.Construction

/-!
# Checking expressions

An expression has a type and a qualifier, which depend on the tables and on the scope. Checking it
may add diagnostics about the member it stands in, and nothing else.
-/

namespace Mutability.Checker

/-- A variable: its declared position and the qualifier of its present value. -/
structure Var where
  declared : Position
  current : Qualifier
deriving DecidableEq, Repr

/-- What is known at a point of a body. -/
structure Scope where
  /-- The member. -/
  location : Location
  /-- The qualifier of the receiver; a static method has none. -/
  receiver : Option Qualifier
  /-- Whether the member is a constructor. -/
  inConstructor : Bool
  /-- The qualifier of the return; a member without a value has none. -/
  returns : Option Qualifier
  vars : OrderedMap String Var
  /-- The fields that the constructor has written so far. -/
  written : List String
deriving DecidableEq, Repr

/-- The rules and the tables. -/
structure Env where
  policy : Policy
  tables : Tables
deriving DecidableEq, Repr

/-- The type and the qualifier of an expression. -/
structure Typed where
  host : HostType
  qualifier : Qualifier
deriving DecidableEq, Repr

/-- Reports a qualifier that is not below the one that is required. -/
def checkSubtype (l : Location) (kind : Diagnostic.Kind) (found required : Qualifier) :
    Check Unit :=
  emitAll l (if found ≤ required then [] else [.incompatible kind found required])

/-- Reports the arguments that do not fit their parameters. -/
def checkArguments (l : Location) (args params : List Qualifier) : Check Unit :=
  emitAll l (Construction.argumentDiagnostics id 0 args params)

/-- A variable of the scope. -/
def Scope.var (s : Scope) (name : String) : Except Fault Var :=
  match s.vars.get? name with
  | some v => .ok v
  | none => .error (.unknownVariable name s.location)

/-- The qualifier of the receiver. -/
def Scope.self (s : Scope) : Except Fault Qualifier :=
  match s.receiver with
  | some q => .ok q
  | none => .error (.selfInStatic s.location)

mutual

/-- Checks an expression. -/
def checkExpr (env : Env) (s : Scope) : Expr → Check Typed
  | .self => do
    let q ← s.self
    return ⟨.declared s.location.className, q⟩
  | .null => return ⟨.null, env.policy.defaultQualifier .nullLiteral .null⟩
  | .literal host => return ⟨host, env.policy.defaultQualifier .localVariable host⟩
  | .var name => do
    let v ← s.var name
    return ⟨v.declared.host, v.current⟩
  | .fieldRead receiver name => do
    let target ← checkExpr env s receiver
    let f ← env.tables.field target.host name
    return ⟨f.host,
      if f.field.isStatic then f.field.declared else f.field.viewedThrough target.qualifier⟩
  | .create owner qualifierText args => do
    let k ← env.tables.constructor owner args.length
    let requested ← env.policy.resolve? qualifierText
    validate env.policy s.location (.written .newObject (.declared owner) requested)
    let arguments ← checkArgs env s args
    emitAll s.location (Construction.invocationDiagnostics k.ret requested arguments
      (k.params.map fun p => p.declared.qualifier))
    return ⟨.declared owner, requested.getD k.ret⟩
  | .call receiver name args => do
    let target ← checkExpr env s receiver
    let owner ← className target.host
    let m ← env.tables.method owner name args.length
    let arguments ← checkArgs env s args
    let signature := m.signature.seenFrom (some target.qualifier)
    match signature.receiver with
    | some required =>
      checkSubtype s.location .methodInvocationInvalid target.qualifier required
    | none => pure ()
    checkArguments s.location arguments signature.params
    return ⟨m.returns.getD .null, signature.ret⟩
  | .staticCall owner name args => do
    let m ← env.tables.method owner name args.length
    let arguments ← checkArgs env s args
    let bound := ((m.signature.seenFrom none).bind arguments).signature
    checkArguments s.location arguments bound.params
    return ⟨m.returns.getD .null, bound.ret⟩
  | .cast host qualifierText operand => do
    let inner ← checkExpr env s operand
    let explicit ← env.policy.resolve? qualifierText
    let written := Position.written .cast host explicit
    validate env.policy s.location written
    let q ← env.policy.qualifierOf (written.fill inner.qualifier .propagated)
    return ⟨host, q⟩
  | .binary host lhs rhs => do
    let l ← checkExpr env s lhs
    let r ← checkExpr env s rhs
    let joined := (Position.bare .binary host).fill (l.qualifier.join r.qualifier) .propagated
    let q ← env.policy.qualifierOf joined
    return ⟨host, q⟩

/-- Checks the arguments of a call from left to right. -/
def checkArgs (env : Env) (s : Scope) : List Expr → Check (List Qualifier)
  | [] => return []
  | e :: rest => do
    let t ← checkExpr env s e
    let rest ← checkArgs env s rest
    return t.qualifier :: rest

end

end Mutability.Checker
