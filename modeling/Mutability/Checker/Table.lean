import Mutability.Field
import Mutability.Policy
import Mutability.Program

/-!
# Class tables

The first pass over a program resolves the declarations of every class into a table, so that bodies
can refer to the members of any class. On the way every declared position is judged, defaulted and
recorded in the report. Where two classes share a name, the table of the later one stands for both.
-/

namespace Mutability

/-- A computation that adds to a report and may end in a fault. -/
abbrev Check := StateT Report (Except Fault)

namespace Checker

/-- A field and its type. -/
structure ResolvedField where
  field : Field
  host : HostType
deriving DecidableEq, Repr

/-- A declared position and the qualifier it ended up with. -/
structure Declared where
  position : Position
  qualifier : Qualifier
  qualifier?_position : position.qualifier? = some qualifier
deriving DecidableEq, Repr

/-- The position with its qualifier, or the fault that it has none. -/
def Declared.ofPosition (p : Position) : Except Fault Declared :=
  match h : p.qualifier? with
  | some q => .ok ⟨p, q, h⟩
  | none => .error (.missingQualifier p.kind)

/-- A parameter. -/
structure ResolvedParam where
  name : String
  declared : Declared
deriving DecidableEq, Repr

/-- A constructor. -/
structure ResolvedConstructor where
  ret : Qualifier
  params : List ResolvedParam
deriving DecidableEq, Repr

/-- A method. -/
structure ResolvedMethod where
  signature : Signature
  params : List ResolvedParam
  returns : Option HostType
deriving DecidableEq, Repr

/-- The members of a class. Constructors and methods are numbered as they are declared. -/
structure ClassTable where
  fields : OrderedMap String ResolvedField
  constructors : List ResolvedConstructor
  methods : List ResolvedMethod
deriving DecidableEq, Repr

/-- The tables of all classes, by name. -/
abbrev Tables := OrderedMap String ClassTable

/-- The name under which the parameters of constructors are declared. -/
def constructorName : String := "<init>"

/-- The location of a constructor, by its number. -/
def constructorLocation (c : ClassDecl) (index : Nat) : Location :=
  ⟨c.name, constructorName ++ "[" ++ index.repr ++ "]"⟩

/-! ## Reporting -/

/-- Adds diagnostics about a member. -/
def emitAll (l : Location) (ds : List Diagnostic) : Check Unit :=
  modify fun r => { r with diagnostics := r.diagnostics ++ ds.map (⟨l, ·⟩) }

/-- Adds a declared position. -/
def recordPosition (p : Position) : Check Unit :=
  modify fun r => { r with positions := r.positions ++ [p] }

/-- Judges a written position. -/
def validate (π : Policy) (l : Location) (p : Position) : Check Unit :=
  emitAll l (π.illegality? p).toList

/-! ## Declarations -/

/-- Judges, defaults and records a declared position. -/
def declare (π : Policy) (l : Location) (kind : Position.Kind) (host : HostType)
    (qualifierText : Option String) : Check Declared := do
  let explicit ← π.resolve? qualifierText
  let written := Position.written kind host explicit
  validate π l written
  let declared ← Declared.ofPosition (π.annotate written)
  recordPosition declared.position
  return declared

/-- Declares the parameters of a method, numbered from `index` on. -/
def resolveParams (π : Policy) (l : Location) (method : String) (index : Nat) :
    List ParamDecl → Check (List ResolvedParam)
  | [] => return []
  | p :: rest => do
    let declared ← declare π l (.parameter method index) p.host p.qualifierText
    let rest ← resolveParams π l method (index + 1) rest
    return ⟨p.name, declared⟩ :: rest

/-- Declares a field. -/
def resolveField (π : Policy) (c : ClassDecl) (f : FieldDecl) : Check ResolvedField := do
  let kind := if f.isStatic then Position.Kind.staticField else Position.Kind.instanceField
  let declared ← declare π ⟨c.name, f.name⟩ kind f.host f.qualifierText
  return {
    field := .ofDeclaration f.name declared.qualifier
      (.ofModifiers f.isFinal f.isAssignable) f.isStatic
    host := f.host }

/-- Declares the fields of a class. A repeated field keeps the place of the first declaration and
is otherwise as the last one says. -/
def resolveFields (π : Policy) (c : ClassDecl) (fields : OrderedMap String ResolvedField) :
    List FieldDecl → Check (OrderedMap String ResolvedField)
  | [] => return fields
  | f :: rest => do
    let resolved ← resolveField π c f
    resolveFields π c (fields.insert f.name resolved) rest

/-- Declares the constructor with a number. -/
def resolveConstructor (π : Policy) (c : ClassDecl) (index : Nat) (k : ConstructorDecl) :
    Check ResolvedConstructor := do
  let l := constructorLocation c index
  let ret ← declare π l .constructorReturn c.host k.qualifierText
  let params ← resolveParams π l constructorName 0 k.params
  return ⟨ret.qualifier, params⟩

/-- Declares the constructors of a class, numbered from `index` on. -/
def resolveConstructors (π : Policy) (c : ClassDecl) (index : Nat) :
    List ConstructorDecl → Check (List ResolvedConstructor)
  | [] => return []
  | k :: rest => do
    let resolved ← resolveConstructor π c index k
    let rest ← resolveConstructors π c (index + 1) rest
    return resolved :: rest

/-- Declares the receiver of a method, which a static method does not have. -/
def resolveReceiver (π : Policy) (c : ClassDecl) (m : MethodDecl) : Check (Option Qualifier) :=
  if m.isStatic then return none
  else do
    let declared ← declare π ⟨c.name, m.name⟩ (.receiver m.name) c.host m.receiverText
    return some declared.qualifier

/-- Declares the return of a method. A method without a return type has no value. -/
def resolveReturn (π : Policy) (c : ClassDecl) (m : MethodDecl) : Check Qualifier :=
  match m.returns with
  | none => return .bottom
  | some host => do
    let declared ← declare π ⟨c.name, m.name⟩ (.methodReturn m.name) host m.returnText
    return declared.qualifier

/-- Declares a method. -/
def resolveMethod (π : Policy) (c : ClassDecl) (m : MethodDecl) : Check ResolvedMethod := do
  let receiver ← resolveReceiver π c m
  let params ← resolveParams π ⟨c.name, m.name⟩ m.name 0 m.params
  let ret ← resolveReturn π c m
  return {
    signature := {
      name := m.name
      isStatic := m.isStatic
      receiver := receiver
      params := params.map fun p => p.declared.qualifier
      ret := ret }
    params := params
    returns := m.returns }

/-- Declares the methods of a class. -/
def resolveMethods (π : Policy) (c : ClassDecl) : List MethodDecl → Check (List ResolvedMethod)
  | [] => return []
  | m :: rest => do
    let resolved ← resolveMethod π c m
    let rest ← resolveMethods π c rest
    return resolved :: rest

/-- The table of a class. -/
def resolveClass (π : Policy) (c : ClassDecl) : Check ClassTable := do
  let fields ← resolveFields π c ∅ c.fields
  let constructors ← resolveConstructors π c 0 c.constructors
  let methods ← resolveMethods π c c.methods
  return ⟨fields, constructors, methods⟩

/-- The tables of all classes, added to those that are there. -/
def resolveClasses (π : Policy) (tables : Tables) : List ClassDecl → Check Tables
  | [] => return tables
  | c :: rest => do
    let table ← resolveClass π c
    resolveClasses π (tables.insert c.name table) rest

/-! ## Looking members up -/

/-- The table of a class. -/
def Tables.table (ts : Tables) (className : String) : Except Fault ClassTable :=
  match ts.get? className with
  | some table => .ok table
  | none => .error (.unknownClass className)

/-- The name of the class that a type is. -/
def className : HostType → Except Fault String
  | .declared name => .ok name
  | host => .error (.notAClass host)

/-- A field of a type. -/
def Tables.field (ts : Tables) (host : HostType) (name : String) :
    Except Fault ResolvedField := do
  let owner ← className host
  let table ← ts.table owner
  match table.fields.get? name with
  | some field => .ok field
  | none => .error (.unknownField owner name)

/-- The first method of a class with this name and number of parameters. -/
def Tables.method (ts : Tables) (owner name : String) (arity : Nat) :
    Except Fault ResolvedMethod := do
  let table ← ts.table owner
  match table.methods.find? fun m => m.signature.name = name ∧ m.params.length = arity with
  | some method => .ok method
  | none => .error (.unknownMethod owner name arity)

/-- The first constructor of a class with this number of parameters. -/
def Tables.constructor (ts : Tables) (owner : String) (arity : Nat) :
    Except Fault ResolvedConstructor := do
  let table ← ts.table owner
  match table.constructors.find? fun k => k.params.length = arity with
  | some k => .ok k
  | none => .error (.unknownConstructor owner arity)

end Checker

end Mutability
