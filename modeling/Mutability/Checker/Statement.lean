import Mutability.Checker.Expression

/-!
# Checking statements

A statement changes the scope: it declares a variable, gives a variable a new value, or adds a
field to those that the constructor has written. A variable with an annotation keeps its qualifier
and only takes values that fit; any other variable takes the qualifier of its last value.
-/

namespace Mutability.Checker

/-- The qualifier of a variable after a value has been assigned to it. -/
def assignVar (env : Env) (s : Scope) (declared : Position) (value : Qualifier) :
    Check Qualifier := do
  let required ← env.policy.targetQualifier .identifier declared
  if declared.isExplicit then
    checkSubtype s.location .assignmentTypeIncompatible value required
    return required
  else
    let refined := env.policy.refine declared value
    match refined.qualifier? with
    | some q => return q
    | none => throw (.missingQualifier refined.kind)

/-- Whether an expression is the receiver itself. -/
def isSelf : Expr → Bool
  | .self => true
  | _ => false

/-- Checks a statement and gives the scope after it. -/
def checkStmt (env : Env) (s : Scope) : Stmt → Check Scope
  | .localVar name host qualifierText init => do
    let declared ← declare env.policy s.location .localVariable host qualifierText
    match init with
    | none => return { s with vars := s.vars.insert name ⟨declared.position, declared.qualifier⟩ }
    | some e => do
      let value ← checkExpr env s e
      let current ← assignVar env s declared.position value.qualifier
      return { s with vars := s.vars.insert name ⟨declared.position, current⟩ }
  | .assign target value => do
    let v ← s.var target
    let value ← checkExpr env s value
    let current ← assignVar env s v.declared value.qualifier
    return { s with vars := s.vars.insert target ⟨v.declared, current⟩ }
  | .fieldWrite receiver name value => do
    let target ← checkExpr env s receiver
    let f ← env.tables.field target.host name
    let value ← checkExpr env s value
    let initializes := s.inConstructor && isSelf receiver
    emitAll s.location (f.field.writeDiagnostics target.qualifier initializes value.qualifier)
    return if initializes then { s with written := name :: s.written } else s
  | .eval e => do
    let _ ← checkExpr env s e
    return s
  | .exit none => return s
  | .exit (some e) => do
    let value ← checkExpr env s e
    match s.returns with
    | some required =>
      checkSubtype s.location .returnTypeIncompatible value.qualifier required
    | none => pure ()
    return s

/-- Checks the statements of a body in order. -/
def checkBody (env : Env) (s : Scope) : List Stmt → Check Scope
  | [] => return s
  | stmt :: rest => do
    let s ← checkStmt env s stmt
    checkBody env s rest

end Mutability.Checker
