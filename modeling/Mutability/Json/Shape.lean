import Mutability.Json.Basic

/-!
# The shapes in which data is written as JSON

* A *record* is an object, or an array of its members in the order of declaration. Members that the
  record does not have are not looked at; a member may not be given twice.
* A *case* of a plain choice is its name, or an object with the name as its only member and the
  payload as its value. The payload of a case without data is `null`.
* A *tagged* value is an object with the name of the case under a tag, or an array with that name
  before the members. It is looked at as a whole, so no part of it may have been skipped.
-/

namespace Mutability.Json

/-! ## Records -/

/-- What is given for a member of a record. -/
inductive Slot
  /-- A value. -/
  | given (j : Json)
  /-- Nothing, in an object. -/
  | omitted
  /-- Nothing, since the array ends before it. -/
  | cutOff

/-- What is given for a member by name. -/
def slotOf (members : List (String × Json)) (name : String) : Slot :=
  match members.lookup name with
  | some j => .given j
  | none => .omitted

/-- What is given for the members by place. -/
def placed : List String → List Json → List Slot
  | [], _ => []
  | _ :: names, [] => .cutOff :: placed names []
  | _ :: names, j :: items => .given j :: placed names items

def isRepeated (members : List (String × Json)) (name : String) : Bool :=
  1 < members.countP fun m => m.1 == name

/-- What is given for each member of a record, in the order of declaration. -/
def record? (names : List String) : Json → Option (List Slot)
  | obj members =>
    if names.any (isRepeated members) then none else some (names.map (slotOf members))
  | arr items => if names.length < items.length then none else some (placed names items)
  | _ => none

namespace Slot

variable {α : Type}

/-- A member that has to be given. -/
def required (read : Json → Option α) : Slot → Option α
  | given j => read j
  | omitted | cutOff => none

/-- A member that may be left out and is `value` then. -/
def withDefault (value : α) (read : Json → Option α) : Slot → Option α
  | given j => read j
  | omitted | cutOff => some value

/-- A value that may be `null`. -/
def nullable (read : Json → Option α) : Json → Option (Option α)
  | null => some none
  | j => (read j).map some

/-- A member that may be `null` or left out. -/
def optional (read : Json → Option α) : Slot → Option (Option α) :=
  withDefault none (nullable read)

/-- A member that may be `null`, and that may be left out of an object but not of an array. -/
def optionalByName (read : Json → Option α) : Slot → Option (Option α)
  | given j => nullable read j
  | omitted => some none
  | cutOff => none

end Slot

/-! ## Cases -/

/-- The name of a case and its payload. -/
def case? : Json → Option (String × Option Json)
  | str name => some (name, none)
  | obj [(name, payload)] => some (name, some payload)
  | _ => none

/-- Whether a payload is that of a case without data. Inside a tagged value the empty object is
taken as well as `null`. -/
def isNoPayload (insideTagged : Bool) : Option Json → Bool
  | none | some null => true
  | some (obj []) => insideTagged
  | _ => false

/-- One of finitely many cases without data. -/
def choice? {α : Type} (insideTagged : Bool) (all : List α) (name : α → String) (j : Json) :
    Option α := do
  let (given, payload) ← j.case?
  if isNoPayload insideTagged payload then all.find? fun a => name a = given else none

/-! ## Tagged values -/

/-- The tag of a tagged value and what is beside it. -/
def tagged? (tag : String) (j : Json) : Option (Json × Json) :=
  if j.isComplete then
    match j with
    | obj members =>
      match members.filter fun m => m.1 == tag with
      | [(_, name)] => some (name, obj (members.filter fun m => m.1 != tag))
      | _ => none
    | arr (name :: rest) => some (name, arr rest)
    | _ => none
  else none

/-- Whether what is beside a tag is that of a case without members: an object is not looked at,
an array has no further items. -/
def isNoMembers : Json → Bool
  | obj _ | arr [] => true
  | _ => false

/-! ## Plain values -/

def string? : Json → Option String
  | str s => some s
  | _ => none

def bool? : Json → Option Bool
  | bool b => some b
  | _ => none

/-- A natural number below a bound. -/
def natBelow? (bound : Nat) : Json → Option Nat
  | num (.nat n) => if n < bound then some n else none
  | _ => none

def list? {α : Type} (read : Json → Option α) : Json → Option (List α)
  | arr items => items.mapM read
  | _ => none

/-- The entries of an object, as they come. -/
def entries? {α : Type} (read : Json → Option α) : Json → Option (List (String × α))
  | obj members => members.mapM fun m => (read m.2).map (m.1, ·)
  | _ => none

end Mutability.Json
