import Mutability.Checker.Unit
import Mutability.Codec.Metrics
import Mutability.Codec.Report
import Mutability.CommandLine.Arguments
import Mutability.CommandLine.Files
import Mutability.Decimal.Double
import Mutability.Json.Printer
import Mutability.Law.Sample

/-!
# Running the program

A run is a function of the arguments and of the files: it gives an exit code, and what is written
to the two outputs. The code is 0 if all is well, 1 if the program has errors or could not be
checked, 2 if the arguments are wrong, and 101 if classes of one name are at odds.
-/

namespace Mutability.CommandLine

/-- The outcome of a run. -/
structure Outcome where
  exitCode : UInt8
  stdout : String
  stderr : String
deriving DecidableEq, Repr, Inhabited

namespace Outcome

/-- A run that wrote this text. -/
def written (exitCode : UInt8) (lines : List String) : Outcome :=
  ⟨exitCode, String.join (lines.map (· ++ "\n")), ""⟩

/-- A run that could not be finished. -/
def fatal (exitCode : UInt8) (message : String) : Outcome :=
  ⟨exitCode, "", "Error: " ++ message ++ "\n"⟩

end Outcome

/-! ## Colours -/

/-- The styles of coloured output. -/
inductive Style
  | boldRed | red | cyan | green | bold
deriving DecidableEq, Repr

/-- The code of a style. -/
def Style.code : Style → String
  | boldRed => "1;31"
  | red => "31"
  | cyan => "36"
  | green => "32"
  | bold => "1"

/-- A text in a style, if the output is coloured. -/
def paint (color : Bool) (style : Style) (text : String) : String :=
  if color then "\x1b[" ++ style.code ++ "m" ++ text ++ "\x1b[0m" else text

/-! ## Checking -/

/-- The line about a diagnostic. -/
def diagnosticLine (color : Bool) (model : String) (d : LocatedDiagnostic) : String :=
  model ++ ": " ++ d.location.display ++ ": " ++ paint color .boldRed "error:" ++ " " ++
    d.diagnostic.display

/-- The line about a constructor that does not set every field it ought to. -/
def summaryLine (color : Bool) (model : String) (s : ConstructorSummary) : String :=
  model ++ ": " ++ s.location.display ++ ": " ++ paint color .cyan "note:" ++
    " fields not initialized: " ++ ", ".intercalate s.uninitialized

/-- The lines about the metrics. -/
def metricsLines (color : Bool) (m : Metrics) : List String :=
  [ "",
    paint color .bold "Qualifier coverage",
    "  positions: " ++ m.coverage.total.repr ++ " (explicit " ++ m.coverage.explicit.repr ++
      ", defaulted " ++ m.coverage.defaulted.repr ++ ", refined " ++ m.coverage.refined.repr ++
      ")",
    "  explicit coverage: " ++ Decimal.onePlace m.coverage.percentage ++ "%" ] ++
  (m.distribution.counts.entries.filter fun e => 0 < e.2).map fun e =>
    "  " ++ e.1.annotationName ++ ": " ++ e.2.repr

/-- The last line of a check. -/
def totalLine (color : Bool) (count : Nat) : String :=
  if count = 0 then paint color .green "No qualifier errors"
  else paint color .boldRed (count.repr ++ " error(s)")

/-- The lines of a check. -/
def reportLines (color : Bool) (model : String) (r : Report) (m : Option Metrics) :
    List String :=
  r.diagnostics.map (diagnosticLine color model) ++
    (r.constructors.filter fun s => !s.uninitialized.isEmpty).map (summaryLine color model) ++
    (match m with
      | some m => metricsLines color m
      | none => []) ++
    [totalLine color r.diagnostics.length]

/-- The report of a check as one JSON value, with every member in order. -/
def reportJson (model : String) (r : Report) (m : Option Metrics) : Json :=
  Json.sorted (.obj [("model", .str model), ("report", r.toJson),
    ("metrics", .ofOption Metrics.toJson m)])

/-- The exit code for a program that cannot be checked. Two classes of one name that do not have the
same members are told from the rest. -/
def faultCode : Fault → UInt8
  | .staleMember _ _ => 101
  | _ => 1

/-- Runs a check. -/
def runCheck (color : Bool) (files : Files) (config : Configuration) (model : String)
    (format : OutputFormat) (metrics : Bool) : Outcome :=
  match Program.load files model with
  | .error fault => .fatal 1 fault.message
  | .ok program =>
    match program.check (.ofConfiguration config) with
    | .error fault => .fatal (faultCode fault) fault.message
    | .ok report =>
      let m := if metrics then some (Metrics.ofReport report) else none
      .written (if report.hasErrors then 1 else 0)
        (match format with
          | .text => reportLines color model report m
          | .json => [(reportJson model report m).pretty])

/-! ## Laws -/

/-- A text with blanks after it up to a width. -/
def padRight (width : Nat) (s : String) : String :=
  s ++ String.ofList (List.replicate (width - s.length) ' ')

/-- The lines about a verdict. -/
def verdictLines (color : Bool) (v : Verdict) : List String :=
  let status := if v.isProven then paint color .green "proven" else paint color .boldRed "VIOLATED"
  let method := match v.method with
    | .exhaustive => "exhaustive"
    | .sampled tests => tests.repr ++ " samples"
  (padRight 40 v.property ++ " " ++ status ++ " (" ++ method ++ ")") ::
    v.counterexample.toList.map ("    counterexample: " ++ ·)

/-- Runs the laws. -/
def runVerify (color : Bool) (samples : Nat) (format : OutputFormat) : Outcome :=
  let verdicts := Law.verifyAll samples
  let failed := verdicts.countP fun v => !v.isProven
  .written (if failed = 0 then 0 else 1)
    (match format with
      | .text => verdicts.flatMap (verdictLines color) ++
        [verdicts.length.repr ++ " properties, " ++ failed.repr ++ " violated"]
      | .json => [(Json.ofList Verdict.toJson verdicts).pretty])

/-! ## Everything -/

/-- The name and the version of the program. -/
def versionLine : String := "pico 0.4.0"

/-- What the program can do. -/
def rootHelp : List String :=
  [ "PICO object-mutability type checker",
    "",
    "Usage: pico [OPTIONS] <COMMAND>",
    "",
    "Commands:",
    "  check   Check a JSON declaration model",
    "  verify  Verify the qualifier lattice and adaptation laws",
    "  config  Print the effective configuration",
    "  help    Print this message or the help of the given subcommand(s)",
    "",
    "Options:",
    "  -v, --verbose...       Increase log verbosity",
    "  -c, --config <CONFIG>  Checker configuration (JSON, or TOML with a .toml extension)",
    "  -h, --help             Print help",
    "  -V, --version          Print version" ]

/-- What a command can do. -/
def actionHelp : Action → List String
  | .check =>
    [ "Check a JSON declaration model",
      "",
      "Usage: pico check [OPTIONS] <MODEL>",
      "",
      "Arguments:",
      "  <MODEL>  Model file",
      "",
      "Options:",
      "  -f, --format <FORMAT>  [default: text] [possible values: text, json]",
      "      --metrics          Also report qualifier coverage metrics",
      "  -v, --verbose...       Increase log verbosity",
      "  -c, --config <CONFIG>  Checker configuration (JSON, or TOML with a .toml extension)",
      "  -h, --help             Print help" ]
  | .verify =>
    [ "Verify the qualifier lattice and adaptation laws",
      "",
      "Usage: pico verify [OPTIONS]",
      "",
      "Options:",
      "      --samples <SAMPLES>  Random cases per sampled property [default: 500]",
      "  -f, --format <FORMAT>    [default: text] [possible values: text, json]",
      "  -v, --verbose...         Increase log verbosity",
      "  -c, --config <CONFIG>    Checker configuration (JSON, or TOML with a .toml extension)",
      "  -h, --help               Print help" ]
  | .config =>
    [ "Print the effective configuration",
      "",
      "Usage: pico config [OPTIONS]",
      "",
      "Options:",
      "  -v, --verbose...       Increase log verbosity",
      "  -c, --config <CONFIG>  Checker configuration (JSON, or TOML with a .toml extension)",
      "  -h, --help             Print help" ]

/-- The outcome when the arguments do not make a run. -/
def stopped : Stop → Outcome
  | .version => .written 0 [versionLine]
  | .help none => .written 0 rootHelp
  | .help (some a) => .written 0 (actionHelp a)
  | .rejected =>
    ⟨2, "", "error: the arguments are not valid\n\nFor more information, try '--help'.\n"⟩

/-- The configuration of a run. -/
def loadConfiguration (files : Files) : Option String → Except String Configuration
  | none => .ok .standard
  | some path =>
    match Configuration.load files path with
    | .ok c => .ok c
    | .error _ => .error ("loading configuration from " ++ path)

/-- Runs a command. The configuration is loaded first, whatever the command is. -/
def Invocation.run (color : Bool) (files : Files) (i : Invocation) : Outcome :=
  match loadConfiguration files i.configPath with
  | .error message => .fatal 1 message
  | .ok config =>
    match i.command with
    | .check model format metrics => runCheck color files config model format metrics
    | .verify samples format => runVerify color samples format
    | .config => .written 0 [config.toJson.pretty]

/-- Runs the program. -/
def run (color : Bool) (files : Files) (args : List String) : Outcome :=
  match parse args with
  | .error stop => stopped stop
  | .ok invocation => invocation.run color files

/-- The files that a run may look at. -/
def Invocation.paths (i : Invocation) : List String :=
  i.configPath.toList ++ match i.command with
    | .check model _ _ => [model]
    | _ => []

end Mutability.CommandLine
