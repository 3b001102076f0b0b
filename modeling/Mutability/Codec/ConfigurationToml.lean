import Mutability.Configuration
import Mutability.Toml.Reader

/-!
# Configurations as TOML

As in JSON every key may be left out. A qualifier may also be written as a table with its name as
the only key, of something empty.
-/

namespace Mutability

def Toml.isEmpty : Toml → Bool
  | .arr [] | .table _ [] | .tables [] => true
  | _ => false

def Toml.string? : Toml → Option String
  | .str s => some s
  | _ => none

def Toml.bool? : Toml → Option Bool
  | .bool b => some b
  | _ => none

def Toml.list? {α : Type} (read : Toml → Option α) : Toml → Option (List α)
  | .arr items | .tables items => items.mapM read
  | _ => none

def Toml.entries? {α : Type} (read : Toml → Option α) : Toml → Option (List (String × α))
  | .table _ entries => entries.mapM fun e => (read e.2).map (e.1, ·)
  | _ => none

def Qualifier.ofExactName? (name : String) : Option Qualifier :=
  all.find? fun q => q.simpleName = name

/-- Reads a qualifier. A table has the name as its only key. -/
def Qualifier.ofToml? : Toml → Option Qualifier
  | .str name => ofExactName? name
  | .table _ [(name, v)] => if v.isEmpty then ofExactName? name else none
  | _ => none

namespace Configuration

/-- The value of a key, or the standard one if it is left out. -/
def keyOr {α : Type} (entries : Toml.Entries) (key : String) (value : α)
    (read : Toml → Option α) : Option α :=
  match entries.lookup key with
  | some v => read v
  | none => some value

def ofToml? (entries : Toml.Entries) : Option Configuration := do
  return {
    immutableTypes := ← keyOr entries "implicitly_immutable_types" standard.immutableTypes fun v =>
      (v.list? Toml.string?).map .ofList
    aliases := ← keyOr entries "aliases" standard.aliases fun v =>
      (v.entries? Qualifier.ofToml?).map .ofList
    defaultQualifier := ←
      keyOr entries "default_qualifier" standard.defaultQualifier Qualifier.ofToml?
    objectMethodDefaults := ←
      keyOr entries "object_method_defaults" standard.objectMethodDefaults Toml.bool? }

def ofTomlText? (text : String) : Option Configuration :=
  Toml.parse? text >>= ofToml?

end Configuration

end Mutability
