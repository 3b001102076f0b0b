import Mutability.Checker.Statement

/-!
# Checking in one state

Bodies are checked here on a machine: one state with the tables, the scope and the report, which
every step takes as the step before has left it. Any step could change any part of it. Expressions
change the report only, and statements the scope as well, so that a body runs as in
`Checker.checkBody`, where the tables and the scope are handed down.
-/

namespace Mutability.Checker

/-- The scope with another value in a variable that is there. -/
def Scope.setCurrent (s : Scope) (name : String) (q : Qualifier) : Scope :=
  match s.vars.get? name with
  | some v => { s with vars := s.vars.insert name ⟨v.declared, q⟩ }
  | none => s

/-- All that is read and changed while a body is checked. -/
structure Machine where
  tables : Tables
  scope : Scope
  report : Report
deriving DecidableEq, Repr

/-- A computation that may change the machine and may end in a fault. -/
abbrev Action := StateT Machine (Except Fault)

namespace Machine

variable {α : Type}

/-- Goes on with the report, by the tables and the scope as they are now. -/
def step (f : Tables → Scope → Check α) : Action α := do
  let m ← get
  let (a, report) ← (f m.tables m.scope).run m.report
  set { m with report := report }
  return a

/-- Changes the scope. -/
def modifyScope (f : Scope → Scope) : Action Unit :=
  modify fun m => { m with scope := f m.scope }

/-- Reports a qualifier that is not below the one that is required, if any is. -/
def checkRequired (l : Location) (kind : Diagnostic.Kind) (found : Qualifier) :
    Option Qualifier → Check Unit
  | some required => checkSubtype l kind found required
  | none => pure ()

/-- Creates an object. The constructor is looked up first, and the arguments are evaluated after
the written qualifier has been judged. -/
def createObject (π : Policy) (owner : String) (qualifierText : Option String) (arity : Nat)
    (evalArguments : Action (List Qualifier)) : Action Typed := do
  let k ← step fun ts _ => liftM (ts.constructor owner arity)
  let requested ← π.resolve? qualifierText
  step fun _ s => validate π s.location (.written .newObject (.declared owner) requested)
  let arguments ← evalArguments
  step fun _ s => emitAll s.location (Construction.invocationDiagnostics k.ret requested arguments
    (k.params.map fun p => p.declared.qualifier))
  return ⟨.declared owner, requested.getD k.ret⟩

mutual

/-- Evaluates an expression. -/
def evalExpr (π : Policy) : Expr → Action Typed
  | .self => step fun _ s => do
    let q ← s.self
    return ⟨.declared s.location.className, q⟩
  | .null => return ⟨.null, π.defaultQualifier .nullLiteral .null⟩
  | .literal host => return ⟨host, π.defaultQualifier .localVariable host⟩
  | .var name => do
    let v ← step fun _ s => liftM (s.var name)
    return ⟨v.declared.host, v.current⟩
  | .fieldRead receiver name => do
    let target ← evalExpr π receiver
    let f ← step fun ts _ => liftM (ts.field target.host name)
    return ⟨f.host,
      if f.field.isStatic then f.field.declared else f.field.viewedThrough target.qualifier⟩
  | .create owner qualifierText args =>
    createObject π owner qualifierText args.length (evalArgs π args)
  | .call receiver name args => do
    let target ← evalExpr π receiver
    let owner ← className target.host
    let m ← step fun ts _ => liftM (ts.method owner name args.length)
    let arguments ← evalArgs π args
    let signature := m.signature.seenFrom (some target.qualifier)
    step fun _ s =>
      checkRequired s.location .methodInvocationInvalid target.qualifier signature.receiver
    step fun _ s => checkArguments s.location arguments signature.params
    return ⟨m.returns.getD .null, signature.ret⟩
  | .staticCall owner name args => do
    let m ← step fun ts _ => liftM (ts.method owner name args.length)
    let arguments ← evalArgs π args
    let bound := ((m.signature.seenFrom none).bind arguments).signature
    step fun _ s => checkArguments s.location arguments bound.params
    return ⟨m.returns.getD .null, bound.ret⟩
  | .cast host qualifierText operand => do
    let inner ← evalExpr π operand
    let explicit ← π.resolve? qualifierText
    let written := Position.written .cast host explicit
    step fun _ s => validate π s.location written
    let q ← π.qualifierOf (written.fill inner.qualifier .propagated)
    return ⟨host, q⟩
  | .binary host lhs rhs => do
    let l ← evalExpr π lhs
    let r ← evalExpr π rhs
    let joined := (Position.bare .binary host).fill (l.qualifier.join r.qualifier) .propagated
    let q ← π.qualifierOf joined
    return ⟨host, q⟩

/-- Evaluates the arguments of a call from left to right. -/
def evalArgs (π : Policy) : List Expr → Action (List Qualifier)
  | [] => return []
  | e :: rest => do
    let t ← evalExpr π e
    let rest ← evalArgs π rest
    return t.qualifier :: rest

end

/-- Runs a statement. -/
def execStmt (π : Policy) : Stmt → Action Unit
  | .localVar name host qualifierText init => do
    let declared ← step fun _ s => declare π s.location .localVariable host qualifierText
    match init with
    | none =>
      modifyScope fun s =>
        { s with vars := s.vars.insert name ⟨declared.position, declared.qualifier⟩ }
    | some e => do
      let value ← evalExpr π e
      let current ← step fun ts s => assignVar ⟨π, ts⟩ s declared.position value.qualifier
      modifyScope fun s => { s with vars := s.vars.insert name ⟨declared.position, current⟩ }
  | .assign target value => do
    let v ← step fun _ s => liftM (s.var target)
    let value ← evalExpr π value
    let current ← step fun ts s => assignVar ⟨π, ts⟩ s v.declared value.qualifier
    modifyScope fun s => s.setCurrent target current
  | .fieldWrite receiver name value => do
    let target ← evalExpr π receiver
    let f ← step fun ts _ => liftM (ts.field target.host name)
    let value ← evalExpr π value
    step fun _ s => emitAll s.location (f.field.writeDiagnostics target.qualifier
      (s.inConstructor && isSelf receiver) value.qualifier)
    modifyScope fun s =>
      if s.inConstructor && isSelf receiver then { s with written := name :: s.written } else s
  | .eval e => do
    let _ ← evalExpr π e
    return ()
  | .exit none => return ()
  | .exit (some e) => do
    let value ← evalExpr π e
    step fun _ s => checkRequired s.location .returnTypeIncompatible value.qualifier s.returns

/-- Runs the statements of a body in order. -/
def execBody (π : Policy) : List Stmt → Action Unit
  | [] => return ()
  | stmt :: rest => do
    execStmt π stmt
    execBody π rest

end Machine

end Mutability.Checker
