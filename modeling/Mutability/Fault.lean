import Mutability.Report

/-!
# Faults

A check ends early when the program refers to something that it does not declare, or when the
rules are asked a question that has no answer. Nothing is reported then but the fault.
-/

namespace Mutability

/-- The forms of trees that are asked about as targets of an assignment. -/
inductive TreeKind
  | declaration | identifier | memberSelect | arrayAccess | typeTree | methodInvocation | newObject
  | literal | binary | cast | conditional | lambda
deriving DecidableEq, Repr, Inhabited

namespace TreeKind

/-- Every form. -/
def all : List TreeKind :=
  [declaration, identifier, memberSelect, arrayAccess, typeTree, methodInvocation, newObject,
    literal, binary, cast, conditional, lambda]

/-- The form as it is written in requests. -/
def name : TreeKind → String
  | declaration => "variable"
  | identifier => "identifier"
  | memberSelect => "member_select"
  | arrayAccess => "array_access"
  | typeTree => "type_tree"
  | methodInvocation => "method_invocation"
  | newObject => "new_object"
  | literal => "literal"
  | binary => "binary"
  | cast => "cast"
  | conditional => "conditional"
  | lambda => "lambda"

/-- The form as it is named in messages. -/
def display : TreeKind → String
  | declaration => "Variable"
  | identifier => "Identifier"
  | memberSelect => "MemberSelect"
  | arrayAccess => "ArrayAccess"
  | typeTree => "TypeTree"
  | methodInvocation => "MethodInvocation"
  | newObject => "NewObject"
  | literal => "Literal"
  | binary => "Binary"
  | cast => "Cast"
  | conditional => "Conditional"
  | lambda => "Lambda"

/-- Whether a tree of this form can stand on the left of an assignment. -/
def isTarget : TreeKind → Bool
  | declaration | identifier | memberSelect | arrayAccess | typeTree => true
  | _ => false

end TreeKind

/-- Why a question about a program has no answer. -/
inductive Fault
  /-- A tree that cannot be assigned was asked about as a target. -/
  | unexpectedTarget (tree : TreeKind)
  /-- Qualifiers of the two hierarchies were related. -/
  | mixedHierarchies (mutability : Qualifier) (state : InitState)
  /-- A position has no qualifier after defaulting. -/
  | missingQualifier (kind : Position.Kind)
  /-- An annotation stands for no qualifier. -/
  | unknownQualifier (text : String)
  /-- No class has this name. -/
  | unknownClass (name : String)
  /-- The class has no such field. -/
  | unknownField (className field : String)
  /-- The class has no method of this name with this number of parameters. -/
  | unknownMethod (className method : String) (arity : Nat)
  /-- The class has no constructor with this number of parameters. -/
  | unknownConstructor (className : String) (arity : Nat)
  /-- No parameter or local variable has this name. -/
  | unknownVariable (name : String) (location : Location)
  /-- The receiver is used in a member that has none. -/
  | selfInStatic (location : Location)
  /-- A member is selected from a type that is no class. -/
  | notAClass (host : HostType)
  /-- Two classes share a name, and the later one, which stands for both, has no constructor or
  method of this number. -/
  | staleMember (className : String) (index : Nat)
deriving DecidableEq, Repr

namespace Fault

/-- The fault in words. -/
def message : Fault → String
  | unexpectedTarget tree => "unexpected tree passed as assignment target: " ++ tree.display
  | mixedHierarchies q s =>
    "cannot relate " ++ q.annotationName ++ " with initialization state " ++ s.display
  | missingQualifier kind => "no qualifier for " ++ kind.display ++ " after defaulting"
  | unknownQualifier text => "unknown qualifier `" ++ text ++ "`"
  | unknownClass name => "unknown class `" ++ name ++ "`"
  | unknownField className field => "class " ++ className ++ " has no field `" ++ field ++ "`"
  | unknownMethod className method arity =>
    "class " ++ className ++ " has no method `" ++ method ++ "` taking " ++ arity.repr ++
      " arguments"
  | unknownConstructor className arity =>
    "class " ++ className ++ " has no constructor taking " ++ arity.repr ++ " arguments"
  | unknownVariable name location =>
    "unknown variable `" ++ name ++ "` in " ++ location.display
  | selfInStatic location => "`this` used in static context " ++ location.display
  | notAClass host => "cannot select a member of non-class type " ++ host.display
  | staleMember className index =>
    "class " ++ className ++ " has no member number " ++ index.repr

end Fault

namespace AnyQualifier

/-- Whether `a` is below `b`. Qualifiers of different hierarchies cannot be related. -/
def le : AnyQualifier → AnyQualifier → Except Fault Bool
  | mutability a, mutability b => .ok (a.le b)
  | initialization a, initialization b => .ok (a.le b)
  | mutability q, initialization s | initialization s, mutability q =>
    .error (.mixedHierarchies q s)

/-- The least qualifier above both, within one hierarchy. -/
def join : AnyQualifier → AnyQualifier → Except Fault AnyQualifier
  | mutability a, mutability b => .ok (mutability (a.join b))
  | initialization a, initialization b => .ok (initialization (a.join b))
  | mutability q, initialization s | initialization s, mutability q =>
    .error (.mixedHierarchies q s)

end AnyQualifier

end Mutability
