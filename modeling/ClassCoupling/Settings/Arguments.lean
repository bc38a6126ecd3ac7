import ClassCoupling.Report.Format
import ClassCoupling.Snapshot.Graph
import ClassCoupling.View.Granularity

/-!
# Command-line arguments

Arguments are read from left to right. An option that still waits for its value, and paths that were
just given, are pending: they are taken over when the next option comes, or a path after an option,
or the end. An argument that is not known at all is reported before anything pending is looked at.
-/

namespace ClassCoupling

inductive LogLevel where
  | error
  | warn
  | info
  | debug
  | trace
  deriving DecidableEq, Repr, Inhabited

namespace LogLevel

def all : List LogLevel := [error, warn, info, debug, trace]

def describe : LogLevel → String
  | error => "error"
  | warn => "warn"
  | info => "info"
  | debug => "debug"
  | trace => "trace"

def ofString? (s : String) : Option LogLevel := all.find? (·.describe = s)

end LogLevel

structure Arguments where
  paths : List String := []
  format : Option OutputFormat := none
  output : Option String := none
  granularity : Option Granularity := none
  cyclesOnly : Bool := false
  start : Option String := none
  direction : Option Direction := none
  ignore : List String := []
  config : Option String := none
  failOnCycles : Bool := false
  logLevel : Option LogLevel := none
  quiet : Bool := false
  deriving DecidableEq, Repr

namespace Arguments

/-- Why arguments are not taken, or not needed. -/
inductive Refusal where
  | unknownArgument
  /-- A value is absent, empty where it must not be, or not one of the possible ones. -/
  | invalidValue
  /-- A value cannot be read. -/
  | valueValidation
  /-- A value is given to an option that takes none. -/
  | tooManyValues
  /-- An option is given twice. -/
  | conflict
  | missingRequired
  | help
  | version
  deriving DecidableEq, Repr

inductive Flag where
  | cyclesOnly
  | failOnCycles
  | quiet
  deriving DecidableEq, Repr

inductive Setting where
  | format
  | output
  | view
  | start
  | direction
  | ignore
  | config
  | logLevel
  deriving DecidableEq, Repr

inductive Key where
  | flag (flag : Flag)
  | setting (setting : Setting)
  | help
  | version
  deriving DecidableEq, Repr

def Key.ofLong? (name : String) : Option Key :=
  [ ("format", .setting .format), ("output", .setting .output), ("view", .setting .view),
    ("cycles-only", .flag .cyclesOnly), ("from", .setting .start),
    ("direction", .setting .direction), ("ignore", .setting .ignore),
    ("config", .setting .config), ("fail-on-cycles", .flag .failOnCycles),
    ("log-level", .setting .logLevel), ("quiet", .flag .quiet), ("help", .help),
    ("version", .version) ].lookup name

def Key.ofShort? (c : Char) : Option Key :=
  [ ('f', .setting .format), ('o', .setting .output), ('i', .setting .ignore),
    ('c', .setting .config), ('q', .flag .quiet), ('h', .help), ('V', .version) ].lookup c

/-! ## Values -/

def readDirection? (s : String) : Option Direction :=
  [("successors", .forward), ("predecessors", .backward)].lookup s

/-- Takes a value over into a field that has none yet. -/
def fill {α : Type} (field : Option α) (value : Option α) (bad : Refusal) :
    Except Refusal (Option α) :=
  match field, value with
  | some _, _ => .error .conflict
  | none, some value => .ok (some value)
  | none, none => .error bad

def nonempty? (s : String) : Option String := if s = "" then none else some s

def assign (a : Arguments) (value : String) : Setting → Except Refusal Arguments
  | .format => do
    return { a with format := ← fill a.format (OutputFormat.ofString? value) .valueValidation }
  | .output => do return { a with output := ← fill a.output (nonempty? value) .invalidValue }
  | .view => do
    return { a with
      granularity := ← fill a.granularity (Granularity.ofString? value) .valueValidation }
  | .start => do return { a with start := ← fill a.start (some value) .invalidValue }
  | .direction => do
    return { a with direction := ← fill a.direction (readDirection? value) .invalidValue }
  | .ignore => return { a with ignore := a.ignore ++ [value] }
  | .config => do return { a with config := ← fill a.config (nonempty? value) .invalidValue }
  | .logLevel => do
    return { a with logLevel := ← fill a.logLevel (LogLevel.ofString? value) .invalidValue }

def raise (a : Arguments) : Flag → Except Refusal Arguments
  | .cyclesOnly => if a.cyclesOnly then .error .conflict else .ok { a with cyclesOnly := true }
  | .failOnCycles =>
    if a.failOnCycles then .error .conflict else .ok { a with failOnCycles := true }
  | .quiet => if a.quiet then .error .conflict else .ok { a with quiet := true }

/-! ## Reading -/

inductive Pending where
  | nothing
  | awaited (setting : Setting)
  | given (setting : Setting) (value : String)
  | paths (paths : List String)
  deriving DecidableEq, Repr

/-- Takes over what is pending. -/
def settle (a : Arguments) : Pending → Except Refusal Arguments
  | .nothing => .ok a
  | .awaited _ => .error .invalidValue
  | .given setting value => a.assign value setting
  | .paths paths =>
    if paths.contains "" then .error .invalidValue else .ok { a with paths := a.paths ++ paths }

/-- The state while reading: what was taken over and what is pending. -/
abbrev Reading := Arguments × Pending

def addPath (path : String) : Reading → Except Refusal Reading
  | (a, .paths paths) => .ok (a, .paths (paths ++ [path]))
  | (a, pending) => do return (← a.settle pending, .paths [path])

/-- A word that is no option: the value of the option before it, or a path. -/
def addWord (word : String) : Reading → Except Refusal Reading
  | (a, .awaited setting) => .ok (a, .given setting word)
  | reading => addPath word reading

/-- An option without a value of its own. -/
def addKey (key : Key) : Reading → Except Refusal Reading
  | (a, pending) => do
    let a ← a.settle pending
    match key with
    | .flag flag => return (← a.raise flag, .nothing)
    | .setting setting => return (a, .awaited setting)
    | .help => throw .help
    | .version => throw .version

/-- An option together with its value. -/
def addValue (setting : Setting) (value : String) : Reading → Except Refusal Reading
  | (a, pending) => do return (← (← a.settle pending).assign value setting, .nothing)

/-- An argument after two dashes, with the value after its equals sign. -/
def addLong (name : String) (value : Option String) (reading : Reading) :
    Except Refusal Reading :=
  match Key.ofLong? name, value with
  | none, _ => .error .unknownArgument
  | some (.setting setting), some value => addValue setting value reading
  | some _, some _ => .error .tooManyValues
  | some key, none => addKey key reading

/-- The letters after one dash. The first letter of an option with a value ends them: what follows,
less an equals sign, is the value. -/
def addShort : List Char → Reading → Except Refusal Reading
  | [], reading => .ok reading
  | c :: rest, reading =>
    match Key.ofShort? c, rest with
    | none, _ => .error .unknownArgument
    | some (.setting setting), [] => addKey (.setting setting) reading
    | some (.setting setting), '=' :: value => addValue setting (String.ofList value) reading
    | some (.setting setting), value => addValue setting (String.ofList value) reading
    | some key, rest => do addShort rest (← addKey key reading)

/-- One argument before any `--`. -/
def addArgument (argument : String) (reading : Reading) : Except Refusal Reading :=
  match argument.toList with
  | '-' :: '-' :: body =>
    match Text.cutFirst '=' body with
    | some (name, value) => addLong (String.ofList name) (some (String.ofList value)) reading
    | none => addLong (String.ofList body) none reading
  | '-' :: c :: rest => addShort (c :: rest) reading
  | _ => addWord argument reading

/-- Reads all arguments; after `--` there are only paths. -/
def readAll : List String → Reading → Except Refusal Arguments
  | [], (a, pending) => a.settle pending
  | argument :: rest, reading =>
    if argument = "--" then do
      let (a, pending) ← rest.foldlM (fun reading path => addPath path reading) reading
      a.settle pending
    else do readAll rest (← addArgument argument reading)

/-- Reads the arguments of a run. There has to be a path, and a direction needs a node to start
from. -/
def parse (arguments : List String) : Except Refusal Arguments := do
  let a ← readAll arguments ({}, .nothing)
  if a.paths = [] ∨ (a.direction.isSome ∧ a.start = none) then throw .missingRequired
  return a

end Arguments

end ClassCoupling
