import Mutability.HostType

/-!
# Programs

The declarations that are checked: classes with fields, constructors and methods, and bodies as
lists of statements. Annotations are kept as the texts written in the program, since what they
stand for depends on the configuration.
-/

namespace Mutability

/-- An expression. -/
inductive Expr
  /-- The receiver of the member. -/
  | self
  /-- The literal `null`. -/
  | null
  /-- A literal of the given type. -/
  | literal (host : HostType)
  /-- A parameter or local variable. -/
  | var (name : String)
  /-- A field of an object. -/
  | fieldRead (receiver : Expr) (field : String)
  /-- A new object of a class. -/
  | create (className : String) (qualifierText : Option String) (args : List Expr)
  /-- A call through a receiver. -/
  | call (receiver : Expr) (method : String) (args : List Expr)
  /-- A call of a static method of a class. -/
  | staticCall (className : String) (method : String) (args : List Expr)
  /-- A cast. -/
  | cast (host : HostType) (qualifierText : Option String) (operand : Expr)
  /-- An operator with a result of the given type. -/
  | binary (host : HostType) (lhs rhs : Expr)
deriving Repr, Inhabited

/-- A statement. -/
inductive Stmt
  /-- A local variable is declared, with or without a first value. -/
  | localVar (name : String) (host : HostType) (qualifierText : Option String) (init : Option Expr)
  /-- A parameter or local variable is assigned. -/
  | assign (target : String) (value : Expr)
  /-- A field of an object is assigned. -/
  | fieldWrite (receiver : Expr) (field : String) (value : Expr)
  /-- An expression is evaluated. -/
  | eval (expr : Expr)
  /-- The member ends, with or without a value. -/
  | exit (value : Option Expr)
deriving Repr, Inhabited

/-- A field of a class. -/
structure FieldDecl where
  name : String
  host : HostType
  qualifierText : Option String
  isStatic : Bool
  isFinal : Bool
  /-- Whether the field may be assigned through any receiver. -/
  isAssignable : Bool
deriving DecidableEq, Repr, Inhabited

/-- A parameter of a constructor or method. -/
structure ParamDecl where
  name : String
  host : HostType
  qualifierText : Option String
deriving DecidableEq, Repr, Inhabited

/-- A constructor of a class. Its annotation qualifies the new object. -/
structure ConstructorDecl where
  qualifierText : Option String
  params : List ParamDecl
  body : List Stmt
deriving Repr, Inhabited

/-- A method of a class. A method without a return type has no value. -/
structure MethodDecl where
  name : String
  isStatic : Bool
  receiverText : Option String
  params : List ParamDecl
  returns : Option HostType
  returnText : Option String
  body : List Stmt
deriving Repr, Inhabited

/-- A class. -/
structure ClassDecl where
  name : String
  fields : List FieldDecl
  constructors : List ConstructorDecl
  methods : List MethodDecl
deriving Repr, Inhabited

/-- The type of the objects of a class. -/
def ClassDecl.host (c : ClassDecl) : HostType :=
  .declared c.name

/-- Everything that is checked in one run. -/
structure Program where
  classes : List ClassDecl
deriving Repr, Inhabited

end Mutability
