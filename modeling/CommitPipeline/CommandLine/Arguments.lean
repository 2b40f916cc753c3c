import CommitPipeline.Algorithm
import CommitPipeline.Limit
import CommitPipeline.LogLevel

/-! The arguments of the program. They are read from left to right; the value of an option is
looked at when the next option follows or the arguments end, unless it is attached with `=`. -/
namespace CommitPipeline

structure Arguments where
  /-- The path of the plan, if one is given. -/
  config : Option String
  algorithm : Option Algorithm
  limit : Option Nat
  startSuspended : Bool
  logLevel : Option LogLevel
  dryRun : Bool

/-- The path of the plan if none is given. -/
def defaultConfigPath : String := "Syncpipe.toml"

/-- Why the arguments do not lead to a run. -/
inductive ArgumentStop where
  /-- There is no such option, or the argument is none. -/
  | unknownArgument
  /-- The value is missing or not one of the values listed. -/
  | invalidValue
  /-- The value does not have the form that is asked for. -/
  | malformedValue
  | repeatedOption
  /-- A value is attached to an option that takes none. -/
  | needlessValue
  | help
  | version
  deriving DecidableEq

def ArgumentStop.message : ArgumentStop → String
  | .unknownArgument => "unexpected argument found"
  | .invalidValue => "missing value, or none of the possible values"
  | .malformedValue => "invalid value"
  | .repeatedOption => "an argument cannot be used multiple times"
  | .needlessValue => "unexpected value for an argument"
  | .help => "help requested"
  | .version => "version requested"

/-- The options that take a value. -/
inductive ValueOption where
  | config
  | algorithm
  | limit
  | logLevel
  deriving DecidableEq

inductive Flag where
  | startSuspended
  | dryRun
  | help
  | version
  deriving DecidableEq

inductive CommandOption where
  | value (option : ValueOption)
  | flag (flag : Flag)

/-- The option with a long name. -/
def CommandOption.ofName? (name : String) : Option CommandOption :=
  if name = "config" then some (.value .config)
  else if name = "algorithm" then some (.value .algorithm)
  else if name = "max-concurrent" then some (.value .limit)
  else if name = "log-level" then some (.value .logLevel)
  else if name = "start-suspended" then some (.flag .startSuspended)
  else if name = "dry-run" then some (.flag .dryRun)
  else if name = "help" then some (.flag .help)
  else if name = "version" then some (.flag .version)
  else none

/-- Reads a count: decimal digits, perhaps after a plus sign. -/
def readCount? (s : String) : Option Nat :=
  let digits := match s.toList with
    | '+' :: rest => rest
    | cs => cs
  if digits.isEmpty || !digits.all Char.isDigit then none
  else
    let count := digits.foldl (fun n c => n * 10 + (c.toNat - '0'.toNat)) 0
    if count ≤ maxCount then some count else none

namespace Arguments

def none : Arguments := ⟨.none, .none, .none, false, .none, false⟩

/-- Whether an option has its value. -/
def has (a : Arguments) : ValueOption → Bool
  | .config => a.config.isSome
  | .algorithm => a.algorithm.isSome
  | .limit => a.limit.isSome
  | .logLevel => a.logLevel.isSome

/-- Gives an option its value. -/
def set (a : Arguments) (option : ValueOption) (value : String) :
    Except ArgumentStop Arguments :=
  if a.has option then .error .repeatedOption
  else match option with
    | .config => .ok { a with config := some value }
    | .algorithm =>
      match Algorithm.parse value with
      | .ok algorithm => .ok { a with algorithm := some algorithm }
      | .error _ => .error .malformedValue
    | .limit =>
      match readCount? value with
      | some limit => .ok { a with limit := some limit }
      | .none => .error .malformedValue
    | .logLevel =>
      match LogLevel.ofLabel? value with
      | some level => .ok { a with logLevel := some level }
      | .none => .error .invalidValue

def setFlag (a : Arguments) : Flag → Except ArgumentStop Arguments
  | .startSuspended =>
    if a.startSuspended then .error .repeatedOption else .ok { a with startSuspended := true }
  | .dryRun => if a.dryRun then .error .repeatedOption else .ok { a with dryRun := true }
  | .help => .error .help
  | .version => .error .version

/-- The option that was named last, and the argument after it if there was one. -/
abbrev Pending := Option (ValueOption × Option String)

/-- Gives the option named last its value. -/
def complete (a : Arguments) : Pending → Except ArgumentStop Arguments
  | .none => .ok a
  | some (_, .none) => .error .invalidValue
  | some (option, some value) => a.set option value

/-- The name of a long option and the value attached to it. -/
def splitOption (body : List Char) : String × Option String :=
  let name := String.ofList (body.takeWhile (· ≠ '='))
  match body.dropWhile (· ≠ '=') with
  | [] => (name, .none)
  | _ :: value => (name, some (String.ofList value))

/-- Reads the arguments that are left. -/
def parseFrom (a : Arguments) (pending : Pending) : List String → Except ArgumentStop Arguments
  | [] => a.complete pending
  | arg :: rest =>
    match arg.toList with
    | ['-', '-'] => if rest.isEmpty then a.complete pending else .error .unknownArgument
    | '-' :: '-' :: body =>
      let (name, attached) := splitOption body
      match CommandOption.ofName? name, attached with
      | .none, _ => .error .unknownArgument
      | some (.flag _), some _ => .error .needlessValue
      | some (.flag flag), .none => do
        let a ← a.complete pending
        let a ← a.setFlag flag
        a.parseFrom .none rest
      | some (.value option), some value => do
        let a ← a.complete pending
        let a ← a.set option value
        a.parseFrom .none rest
      | some (.value option), .none => do
        let a ← a.complete pending
        a.parseFrom (some (option, .none)) rest
    | '-' :: 'h' :: _ => do
      let _ ← a.complete pending
      .error .help
    | '-' :: 'V' :: _ => do
      let _ ← a.complete pending
      .error .version
    | '-' :: _ :: _ => .error .unknownArgument
    | _ =>
      match pending with
      | some (option, .none) => a.parseFrom (some (option, some arg)) rest
      | _ => .error .unknownArgument

/-- Reads the arguments of the program, without its name. -/
def parse (args : List String) : Except ArgumentStop Arguments :=
  none.parseFrom .none args

/-- The path of the plan. -/
def path (a : Arguments) : String := a.config.getD defaultConfigPath

/-- How much of the log is wanted; the arguments win over the setting of the environment. -/
def wantedLevel (a : Arguments) (setting : Option String) : LogLevel :=
  (a.logLevel.or (setting.bind LogLevel.ofSetting?)).getD .info

def versionLine : String := "syncpipe 0.1.0"

/-- An overview of the options. -/
def helpLines : List String := [
  "Replay commit graphs through a dependency-aware sync pipeline.",
  "",
  "Usage: syncpipe [OPTIONS]",
  "",
  "Options:",
  "      --config <PATH>          Path to the plan file (TOML) [default: Syncpipe.toml]",
  "      --algorithm <ALGORITHM>  Override the algorithm of the plan",
  "      --max-concurrent <N>     Override the limit of the plan",
  "      --start-suspended        Append every graph while suspended, then resume",
  "      --log-level <LEVEL>      Logging level [possible values: error, warn, info, debug, trace]",
  "      --dry-run                Parse + validate, print the plan, but don't run anything",
  "  -h, --help                   Print help",
  "  -V, --version                Print version"]

end Arguments
end CommitPipeline
