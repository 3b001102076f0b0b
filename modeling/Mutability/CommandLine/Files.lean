import Mutability.Codec.Configuration
import Mutability.Codec.ConfigurationToml
import Mutability.Codec.Program

/-!
# Loading configurations and programs from files

Files are reached through a `Files`, which gives the text of a file or says why there is none.
-/

namespace Mutability

/-- Why a file has no text. -/
inductive FileFault
  | missing
  | directory
  | notDirectory
  | nameTooLong
  | notUtf8
  | other (text : String)
deriving DecidableEq, Repr, Inhabited

/-- The reason in words. -/
def FileFault.message : FileFault → String
  | missing => "No such file or directory (os error 2)"
  | directory => "Is a directory (os error 21)"
  | notDirectory => "Not a directory (os error 20)"
  | nameTooLong => "File name too long (os error 36)"
  | notUtf8 => "stream did not contain valid UTF-8"
  | other text => text

/-- The texts of files by their paths. -/
abbrev Files := String → Except FileFault String

/-- The name of the file at the end of a path. -/
def fileName? (path : String) : Option (List Char) :=
  match ((path.toList.splitOn '/').filter fun part => part ≠ [] ∧ part ≠ ['.']).getLast? with
  | some name => if name = ['.', '.'] then none else some name
  | none => none

/-- The text after the last dot of the name of a file, unless the dot is its first character. -/
def extension? (path : String) : Option String :=
  match fileName? path with
  | none => none
  | some name =>
    let ext := Text.afterLast '.' name
    if ext.length + 1 < name.length then some (String.ofList ext) else none

/-- Why a configuration could not be loaded. -/
inductive Configuration.LoadFault
  | unreadable (cause : FileFault)
  | badJson
  | badToml
deriving DecidableEq, Repr

/-- Reads a configuration from JSON text. -/
def Configuration.ofJsonText (text : String) : Except LoadFault Configuration :=
  match ofJsonText? text with
  | some c => .ok c
  | none => .error .badJson

/-- Reads a configuration from TOML text. -/
def Configuration.ofTomlText (text : String) : Except LoadFault Configuration :=
  match ofTomlText? text with
  | some c => .ok c
  | none => .error .badToml

/-- Loads a configuration: TOML if the file is named so, JSON otherwise. -/
def Configuration.load (files : Files) (path : String) : Except LoadFault Configuration :=
  match files path with
  | .error cause => .error (.unreadable cause)
  | .ok text => if extension? path = some "toml" then ofTomlText text else ofJsonText text

/-- Why a program could not be loaded. -/
inductive Program.LoadFault
  | unreadable (path : String) (cause : FileFault)
  | malformed
deriving DecidableEq, Repr

/-- The reason in words. -/
def Program.LoadFault.message : Program.LoadFault → String
  | unreadable path cause => "failed to read " ++ path ++ ": " ++ cause.message
  | malformed => "the model is not a valid program"

/-- Loads a program. -/
def Program.load (files : Files) (path : String) : Except LoadFault Program :=
  match files path with
  | .error cause => .error (.unreadable path cause)
  | .ok text =>
    match Program.ofText? text with
    | some p => .ok p
    | none => .error .malformed

end Mutability
