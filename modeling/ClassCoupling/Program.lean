import ClassCoupling.Analysis
import ClassCoupling.ExitCode
import ClassCoupling.FileTree.ClassDirectory
import ClassCoupling.FileTree.Output
import ClassCoupling.Report.Rendering
import ClassCoupling.Settings.ConfigFile
import ClassCoupling.Settings.Options

/-!
# Runs of the program

A run is a function from the arguments and the files to an exit code, what is printed, what is said
meanwhile, and the files afterwards.
-/

namespace ClassCoupling.Program

structure Outcome where
  exitCode : ExitCode
  output : String
  messages : List String
  files : FileTree

/-- What was said so far, and the files as they are now. -/
structure Progress where
  messages : List String
  files : FileTree

/-- A part of a run: it says things, may change files and may fail. What it did before it fails is
not undone. -/
abbrev Task := ExceptT Failure (StateM Progress)

def say (messages : List String) : Task Unit :=
  modify fun progress => { progress with messages := progress.messages ++ messages }

def currentFiles : Task FileTree := return (← get).files

/-- Takes a step that may change files and goes on with its result. -/
def change (step : FileTree → FileTree × Except Failure α) : Task α := do
  let (files, result) := step (← currentFiles)
  modify fun progress => { progress with files }
  result

/-- What is said of a notice. A quiet run speaks of errors only. -/
def spoken (quiet : Bool) : Notice → Option String
  | .report text | .completion text => if quiet then none else some text
  | .error text => some text
  | .progress _ _ _ => none

/-- Says what a step noticed and goes on with its result. -/
def follow (quiet : Bool) (step : List Notice × Except Failure α) : Task α := do
  say (step.1.filterMap (spoken quiet))
  step.2

def configOf (files : FileTree) : Option String → Except Failure (Option Config)
  | some path => return some (← Config.load files path)
  | none => Config.discover files "."

def scanRequest (options : Options) : Scan.Request :=
  let standard : Scan.Request := { paths := options.paths }
  { standard with
    ignoredUnits := Scan.addPatterns standard.ignoredUnits options.ignoredUnits
    ignoredSources := options.ignoredSources.getD standard.ignoredSources }

def analysisRequest (options : Options) : Analysis.Request where
  granularity := options.granularity
  cyclesOnly := options.cyclesOnly
  start := options.start
  focus := options.focus

def renderingNotice : OutputFormat → Notice
  | .text => .report "📝 Generating text report..."
  | .json => .report "📝 Generating JSON report..."

def writeTo (path content : String) (files : FileTree) : FileTree × Except Failure Unit :=
  let (files, written) := files.writeReport (Path.ofText path) content
  (files, written.mapError .problem)

/-- Sends a report to where it goes, and gives what is printed of it. -/
def present (content : String) : Option String → Task String
  | none => return content
  | some path => do
    change (writeTo path content)
    say ["✅ Report written: " ++ path]
    return ""

def judge (options : Options) (report : Report) : Task ExitCode := do
  if options.failOnCycles && report.hasCycles then
    say ["❌ Dependency cycles found (" ++ toString report.cycles.length ++
      " in total). Failing because --fail-on-cycles is set."]
    return .cyclesDetected
  return .success

def analyse (timestamp : String) (arguments : Arguments) : Task (ExitCode × String) := do
  let files ← currentFiles
  let config ← configOf files arguments.config
  say ((config.map Config.warnings).getD [])
  let options ← Options.merge arguments (config.getD {})
  let quiet := options.quiet
  let project ← follow quiet
    (Scan.run ClassFile.defaultMaxMajor files.classSource (scanRequest options))
  let report ← follow quiet (Analysis.run timestamp project (analysisRequest options))
  say (spoken quiet (renderingNotice options.format)).toList
  let output ← present (report.render options.format) options.output
  return (← judge options report, output)

/-- What is said of a failure. -/
def failureMessages (failure : Failure) : List String :=
  ["", "❌ An error occurred:", "", failure.message] ++
    failure.causes.flatMap (fun cause => ["", "Caused by: " ++ cause]) ++ [""]

def usage : String :=
  "Usage: " ++ Analysis.toolName ++ " [OPTIONS] <PATHS>...\n"

/-- A run with the given arguments. -/
def run (timestamp : String) (files : FileTree) (arguments : List String) : Outcome :=
  match Arguments.parse arguments with
  | .error .version =>
    ⟨.success, Analysis.toolName ++ " " ++ Analysis.toolVersion ++ "\n", [], files⟩
  | .error .help => ⟨.success, usage, [], files⟩
  | .error _ => ⟨.invalidArguments, "", [usage], files⟩
  | .ok arguments =>
    match (analyse timestamp arguments).run ⟨[], files⟩ with
    | (.ok (exitCode, output), progress) =>
      ⟨exitCode, output, progress.messages, progress.files⟩
    | (.error failure, progress) =>
      ⟨.applicationError, "", progress.messages ++ failureMessages failure, progress.files⟩

/-- The messages as they are written, a line each. -/
def Outcome.messageText (outcome : Outcome) : String :=
  String.join (outcome.messages.map (· ++ "\n"))

end ClassCoupling.Program
