import Mutability.Checker.Statement

/-!
# Checking programs

The second pass checks the bodies of every class against the tables: first the constructors, which
also tell how far they initialize their object, then the methods. The state of a new object of a
class is the join over its constructors.
-/

namespace Mutability.Checker

/-- The variables of a member before its body: the parameters, a later one of a name in place of
an earlier one. -/
def bindParams (params : List ResolvedParam) : OrderedMap String Var :=
  .ofList (params.map fun p => (p.name, ⟨p.declared.position, p.declared.qualifier⟩))

/-- The fields of a class that each constructor has to set and that are not among the written
ones. -/
def uninitialized (table : ClassTable) (written : List String) : List String :=
  (table.fields.values.filter fun f =>
    !f.field.isStatic && f.field.hasInvariant && f.field.name ∉ written).map fun f => f.field.name

/-- The state of initialization after a constructor. -/
def finalState (uninitialized : List String) : InitState :=
  if uninitialized.isEmpty then .initialized else .underInitialization 0

/-- Checks the constructor with a number and says how it leaves its object. -/
def checkConstructor (env : Env) (c : ClassDecl) (index : Nat) (k : ConstructorDecl) :
    Check ConstructorSummary := do
  let table ← env.tables.table c.name
  match table.constructors[index]? with
  | none => throw (.staleMember c.name index)
  | some resolved => do
    let l := constructorLocation c index
    emitAll l (Construction.declarationDiagnostics resolved.ret
      (resolved.params.map fun p => p.declared.qualifier))
    let s ← checkBody env {
      location := l
      receiver := some resolved.ret
      inConstructor := true
      returns := none
      vars := bindParams resolved.params
      written := [] } k.body
    let missing := uninitialized table s.written
    return ⟨l, ⟨resolved.ret, finalState missing⟩, missing⟩

/-- Checks the method with a number. -/
def checkMethod (env : Env) (c : ClassDecl) (index : Nat) (m : MethodDecl) : Check Unit := do
  let table ← env.tables.table c.name
  match table.methods[index]? with
  | none => throw (.staleMember c.name index)
  | some resolved => do
    let _ ← checkBody env {
      location := ⟨c.name, m.name⟩
      receiver := resolved.signature.receiver
      inConstructor := false
      returns := if resolved.returns.isSome then some resolved.signature.ret else none
      vars := bindParams resolved.params
      written := [] } m.body

/-- Adds the summary of a constructor. -/
def recordSummary (summary : ConstructorSummary) : Check Unit :=
  modify fun r => { r with constructors := r.constructors ++ [summary] }

/-- Sets the state of a new object of a class. -/
def recordObject (className : String) (object : ObjectState) : Check Unit :=
  modify fun r => { r with objects := r.objects.insert className object }

/-- Checks the constructors of a class, numbered from `index` on, and gives the states in which
they leave their object. -/
def checkConstructors (env : Env) (c : ClassDecl) (index : Nat) :
    List ConstructorDecl → Check (List ObjectState)
  | [] => return []
  | k :: rest => do
    let summary ← checkConstructor env c index k
    recordSummary summary
    let rest ← checkConstructors env c (index + 1) rest
    return summary.object :: rest

/-- Checks the methods of a class, numbered from `index` on. -/
def checkMethods (env : Env) (c : ClassDecl) (index : Nat) : List MethodDecl → Check Unit
  | [] => return ()
  | m :: rest => do
    checkMethod env c index m
    checkMethods env c (index + 1) rest

/-- Checks the bodies of a class. -/
def checkClass (env : Env) (c : ClassDecl) : Check Unit := do
  let objects ← checkConstructors env c 0 c.constructors
  match ObjectState.joinAll? objects with
  | some object => recordObject c.name object
  | none => pure ()
  checkMethods env c 0 c.methods

/-- Checks the bodies of the classes in order. -/
def checkClasses (env : Env) : List ClassDecl → Check Unit
  | [] => return ()
  | c :: rest => do
    checkClass env c
    checkClasses env rest

/-- Both passes over a program. -/
def checkProgram (π : Policy) (p : Program) : Check Unit := do
  let tables ← resolveClasses π ∅ p.classes
  checkClasses ⟨π, tables⟩ p.classes

end Mutability.Checker

namespace Mutability

/-- Checks a program: a report, or the first fault. -/
def Program.check (π : Policy) (p : Program) : Except Fault Report :=
  match (Checker.checkProgram π p).run ∅ with
  | .ok (_, report) => .ok report
  | .error fault => .error fault

end Mutability
