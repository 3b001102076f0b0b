import Mutability.CommandLine.Run

/-!
# The program

Reads the files that a run may look at, runs, and writes the outcome.
-/

namespace Mutability.CommandLine

/-- The text of a file, or why there is none. -/
def readFile (path : String) : IO (Except FileFault String) := do
  try
    let bytes ← IO.FS.readBinFile path
    return match String.fromUTF8? bytes with
      | some text => .ok text
      | none => .error .notUtf8
  catch e =>
    return .error (match e with
      | .noFileOrDirectory .. => .missing
      | .inappropriateType _ code _ => if code = 20 then .notDirectory else .directory
      | .invalidArgument _ code _ => if code = 36 then .nameTooLong else .other (toString e)
      | e => .other (toString e))

/-- Whether the standard output is to be coloured. -/
def wantsColor : IO Bool := do
  if (← IO.getEnv "NO_COLOR").isSome then return false
  match ← IO.getEnv "CLICOLOR_FORCE" with
  | some value => return value != "0"
  | none => (← IO.getStdout).isTty

/-- Runs the program with the files of the machine. -/
def runWithFiles (args : List String) : IO Outcome := do
  let paths := match parse args with
    | .ok invocation => invocation.paths
    | .error _ => []
  let texts ← paths.mapM fun path => do return (path, ← readFile path)
  let files : Files := fun path => (texts.lookup path).getD (.error .missing)
  return run (← wantsColor) files args

end Mutability.CommandLine

/-- Runs the program and ends with its exit code. -/
def main (args : List String) : IO UInt32 := do
  let outcome ← Mutability.CommandLine.runWithFiles args
  IO.print outcome.stdout
  IO.eprint outcome.stderr
  return outcome.exitCode.toUInt32
