import ClassCoupling.Failure
import ClassCoupling.Scan.Inputs
import ClassCoupling.Settings.Arguments
import ClassCoupling.Settings.Config

/-!
# The options of a run

Arguments win over the configuration; the patterns of ignored units from both are taken together.
-/

namespace ClassCoupling

structure Options where
  paths : List String
  format : OutputFormat
  output : Option String
  granularity : Granularity
  cyclesOnly : Bool
  start : Option (String × Direction)
  ignoredUnits : List String
  ignoredSources : Option (List String)
  focus : List String
  failOnCycles : Bool
  quiet : Bool
  deriving DecidableEq, Repr

namespace Options

def chooseFormat : Option OutputFormat → Option String → Except Failure OutputFormat
  | some format, _ => .ok format
  | none, some text =>
    match OutputFormat.ofString? text with
    | some format => .ok format
    | none => .error (.invalidFormat text)
  | none, none => .ok .text

def chooseGranularity : Option Granularity → Option String → Except Failure Granularity
  | some granularity, _ => .ok granularity
  | none, some text =>
    match Granularity.ofString? text with
    | some granularity => .ok granularity
    | none => .error (.invalidView text)
  | none, none => .ok .classes

def merge (a : Arguments) (config : Config) : Except Failure Options := do
  let format ← chooseFormat a.format config.format
  let granularity ← chooseGranularity a.granularity config.view
  return {
    paths := a.paths
    format
    output := a.output
    granularity
    cyclesOnly := a.cyclesOnly
    start := a.start.map fun node => (node, a.direction.getD .forward)
    ignoredUnits := Scan.addPatterns (config.ignoredClasses.getD []) a.ignore
    ignoredSources := config.ignoredSources
    focus := config.focus.getD UnitFilter.defaultFocus
    failOnCycles := a.failOnCycles || config.failOnCycles.getD false
    quiet := a.quiet }

end Options

end ClassCoupling
