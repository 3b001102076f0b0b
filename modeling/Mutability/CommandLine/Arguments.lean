/-!
# The arguments of the command line

The program has the commands `check`, `verify`, `config` and `help`. Options may be given before
and after the command where they apply to all commands; after it they take precedence. An option
with a value takes it from the same argument (`--format=json`, `-fjson`, `-f=json`) or from the
next one, which must not look like an option. An option may not be repeated at one place, except
for the verbosity. Arguments are judged from left to right; the first that is wrong, or that asks
for help or for the version, decides.
-/

namespace Mutability.CommandLine

/-- The options. -/
inductive Opt
  | verbose | config | format | metrics | samples | help | version
deriving DecidableEq, Repr, Inhabited

namespace Opt

/-- The name of the option after two dashes. -/
def long : Opt → String
  | verbose => "verbose"
  | config => "config"
  | format => "format"
  | metrics => "metrics"
  | samples => "samples"
  | help => "help"
  | version => "version"

/-- The letter of the option after one dash. -/
def short? : Opt → Option Char
  | verbose => some 'v'
  | config => some 'c'
  | format => some 'f'
  | help => some 'h'
  | version => some 'V'
  | metrics | samples => none

/-- Whether the option has a value. -/
def takesValue : Opt → Bool
  | config | format | samples => true
  | _ => false

end Opt

/-- The form of the output. -/
inductive OutputFormat
  | text | json
deriving DecidableEq, Repr, Inhabited

/-- The commands that do something. -/
inductive Action
  | check | verify | config
deriving DecidableEq, Repr, Inhabited

namespace Action

/-- Every command. -/
def all : List Action :=
  [check, verify, config]

/-- The name of the command. -/
def name : Action → String
  | check => "check"
  | verify => "verify"
  | config => "config"

/-- The options of the command. -/
def options : Action → List Opt
  | check => [.format, .metrics, .verbose, .config, .help]
  | verify => [.samples, .format, .verbose, .config, .help]
  | config => [.verbose, .config, .help]

end Action

/-- The options before the command. -/
def rootOptions : List Opt :=
  [.verbose, .config, .help, .version]

/-- What has been given at one place, before or after the command. -/
structure Given where
  config : Option String
  format : Option OutputFormat
  metrics : Bool
  samples : Option Nat
  model : Option String
deriving DecidableEq, Repr, Inhabited

/-- Nothing has been given. -/
def Given.nothing : Given := ⟨none, none, false, none, none⟩

/-- What a command is to do. -/
inductive Command
  | check (model : String) (format : OutputFormat) (metrics : Bool)
  | verify (samples : Nat) (format : OutputFormat)
  | config
deriving DecidableEq, Repr, Inhabited

/-- A run of the program. -/
structure Invocation where
  configPath : Option String
  command : Command
deriving DecidableEq, Repr, Inhabited

/-- Why the arguments do not make a run. -/
inductive Stop
  /-- Help is asked for, about a command or about the program. -/
  | help (about : Option Action)
  /-- The version is asked for. -/
  | version
  /-- The arguments are wrong. -/
  | rejected
deriving DecidableEq, Repr, Inhabited

/-! ## Values -/

/-- The form of output with this name. -/
def format? : String → Option OutputFormat
  | "text" => some .text
  | "json" => some .json
  | _ => none

/-- An unsigned number of 64 bits; a plus may stand before it. -/
def count? (s : String) : Option Nat :=
  let ds : List Char := match s.toList with
    | '+' :: rest => rest
    | cs => cs
  let n := ds.foldl (fun n d => 10 * n + (d.toNat - 48)) 0
  if ds ≠ [] ∧ ds.all Char.isDigit ∧ n < Nat.pow 2 64 then some n else none

/-- The name of a file, which is not empty. -/
def path? (s : String) : Option String :=
  if s = "" then none else some s

/-- Adds an option with a value. -/
def Given.set (g : Given) (o : Opt) (value : String) : Except Stop Given :=
  match o, path? value, format? value, count? value with
  | .config, some path, _, _ =>
    if g.config.isSome then .error .rejected else .ok { g with config := some path }
  | .format, _, some format, _ =>
    if g.format.isSome then .error .rejected else .ok { g with format := some format }
  | .samples, _, _, some n =>
    if g.samples.isSome then .error .rejected else .ok { g with samples := some n }
  | _, _, _, _ => .error .rejected

/-- Adds an option without a value, at the root or at a command. -/
def Given.flag (g : Given) (about : Option Action) : Opt → Except Stop Given
  | .verbose => .ok g
  | .metrics => if g.metrics then .error .rejected else .ok { g with metrics := true }
  | .help => .error (.help about)
  | .version => .error .version
  | _ => .error .rejected

/-! ## Arguments -/

/-- The place of the next argument: one that may be an option, the value of an option, or, after
two dashes alone, no option. -/
inductive Awaiting
  | anything
  | value (o : Opt)
  | operand
deriving DecidableEq, Repr

/-- Takes the letters after one dash. -/
def takeShort (about : Option Action) (allowed : List Opt) (g : Given) :
    List Char → Except Stop (Given × Awaiting)
  | [] => .ok (g, .anything)
  | c :: rest =>
    match allowed.find? fun o => o.short? = some c with
    | none => .error .rejected
    | some o =>
      if o.takesValue then
        match rest with
        | [] => .ok (g, .value o)
        | '=' :: value => (g.set o (String.ofList value)).map (·, .anything)
        | value => (g.set o (String.ofList value)).map (·, .anything)
      else do
        let g ← g.flag about o
        takeShort about allowed g rest

/-- Takes the name after two dashes. -/
def takeLong (about : Option Action) (allowed : List Opt) (g : Given) (cs : List Char) :
    Except Stop (Given × Awaiting) :=
  let name := cs.takeWhile (· != '=')
  match allowed.find? fun o => o.long.toList = name with
  | none => .error .rejected
  | some o =>
    match o.takesValue, cs.drop name.length with
    | true, [] => .ok (g, .value o)
    | true, _ :: value => (g.set o (String.ofList value)).map (·, .anything)
    | false, [] => (g.flag about o).map (·, .anything)
    | false, _ :: _ => .error .rejected

/-- Takes an argument that is no option: the file of a check, nothing else. -/
def takeOperand (about : Option Action) (g : Given) (s : String) : Except Stop Given :=
  match about, g.model, path? s with
  | some .check, none, some path => .ok { g with model := some path }
  | _, _, _ => .error .rejected

/-- Takes the arguments after a command. -/
def takeAll (action : Action) (g : Given) (awaiting : Awaiting) :
    List String → Except Stop Given
  | [] =>
    match awaiting with
    | .value _ => .error .rejected
    | _ => .ok g
  | s :: rest =>
    match awaiting, s.toList with
    | .operand, _ => do takeAll action (← takeOperand (some action) g s) .operand rest
    | .anything, ['-', '-'] => takeAll action g .operand rest
    | .anything, '-' :: '-' :: cs => do
      let (g, awaiting) ← takeLong (some action) action.options g cs
      takeAll action g awaiting rest
    | .anything, '-' :: c :: cs => do
      let (g, awaiting) ← takeShort (some action) action.options g (c :: cs)
      takeAll action g awaiting rest
    | .anything, _ => do takeAll action (← takeOperand (some action) g s) .anything rest
    | .value _, '-' :: _ :: _ => .error .rejected
    | .value o, _ => do takeAll action (← g.set o s) .anything rest

/-- Makes a run of what has been given before and after a command. -/
def invocation (action : Action) (before after : Given) : Except Stop Invocation := do
  let command ← match action, after.model with
    | .check, some model =>
      .ok (Command.check model (after.format.getD .text) after.metrics)
    | .check, none => .error .rejected
    | .verify, _ => .ok (Command.verify (after.samples.getD 500) (after.format.getD .text))
    | .config, _ => .ok Command.config
  return ⟨after.config.or before.config, command⟩

/-- Help about the program, or about the one command that is named. -/
def helpAbout : List String → Stop
  | [] => .help none
  | [s] =>
    if s = "help" then .help none
    else match Action.all.find? fun a => a.name = s with
      | some a => .help (some a)
      | none => .rejected
  | _ => .rejected

/-- Takes the arguments from the first one on, up to a command and its arguments. -/
def takeRoot (g : Given) (awaiting : Awaiting) : List String → Except Stop Invocation
  | [] => .error .rejected
  | s :: rest =>
    match awaiting, s.toList with
    | .operand, _ => .error .rejected
    | .anything, ['-', '-'] => takeRoot g .operand rest
    | .anything, '-' :: '-' :: cs => do
      let (g, awaiting) ← takeLong none rootOptions g cs
      takeRoot g awaiting rest
    | .anything, '-' :: c :: cs => do
      let (g, awaiting) ← takeShort none rootOptions g (c :: cs)
      takeRoot g awaiting rest
    | .anything, _ =>
      if s = "help" then .error (helpAbout rest)
      else match Action.all.find? fun a => a.name = s with
        | some a => do invocation a g (← takeAll a .nothing .anything rest)
        | none => .error .rejected
    | .value _, '-' :: _ :: _ => .error .rejected
    | .value o, _ => do takeRoot (← g.set o s) .anything rest

/-- The run that the arguments ask for. -/
def parse (args : List String) : Except Stop Invocation :=
  takeRoot .nothing .anything args

end Mutability.CommandLine
