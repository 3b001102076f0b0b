/-!
# JSON values

The members of an object are kept in the order of the text, repetitions included: whether a
repeated member is an error depends on who reads the object. A value may have parts that a reader
skipped (`skipped`): they are well formed as text, but no value stands for them, since a string has
half of a surrogate pair, a number exceeds every double, or the nesting is too deep. Such a part is
harmless as long as nobody looks at it.
-/

namespace Mutability

/-- A number: a natural number, or any other literal as its text. -/
inductive Json.Number
  | nat (n : Nat)
  | decimal (text : String)
deriving DecidableEq, Repr, Inhabited

/-- A JSON value. -/
inductive Json
  | null
  | bool (b : Bool)
  | num (n : Json.Number)
  | str (s : String)
  | arr (items : List Json)
  | obj (members : List (String × Json))
  | skipped
deriving Repr, Inhabited

namespace Json

def ofNat (n : Nat) : Json := num (.nat n)

/-- The value inside an option, or `null`. -/
def ofOption {α : Type} (f : α → Json) : Option α → Json
  | none => null
  | some a => f a

def ofList {α : Type} (f : α → Json) (as : List α) : Json :=
  arr (as.map f)

mutual

/-- How deeply arrays and objects are nested in the value. -/
def depth : Json → Nat
  | arr items => depthItems items + 1
  | obj members => depthMembers members + 1
  | _ => 0

def depthItems : List Json → Nat
  | [] => 0
  | j :: rest => max (depth j) (depthItems rest)

def depthMembers : List (String × Json) → Nat
  | [] => 0
  | (_, j) :: rest => max (depth j) (depthMembers rest)

end

mutual

/-- Whether no part of the value was skipped. -/
def isComplete : Json → Bool
  | skipped => false
  | arr items => isCompleteItems items
  | obj members => isCompleteMembers members
  | _ => true

def isCompleteItems : List Json → Bool
  | [] => true
  | j :: rest => isComplete j && isCompleteItems rest

def isCompleteMembers : List (String × Json) → Bool
  | [] => true
  | (_, j) :: rest => isComplete j && isCompleteMembers rest

end

end Json

end Mutability
