import ClassCoupling.Decimal.Fixed
import ClassCoupling.Report.Basic
import ClassCoupling.Text.Cut

/-!
# Reports as text

A list of lines in sections: each section has a title with a rule below it, and all but the last are
followed by an empty line.
-/

namespace ClassCoupling.Report

def rule : String := "----------------------------------------"

/-- Densities have three places. -/
def densityText (x : Float) : String := Decimal.fixed 3 x.toBits

/-- Coupling figures have two places. -/
def couplingText (x : Float) : String := Decimal.fixed 2 x.toBits

def commaList (items : List String) : String := Text.join ", " items

def sizeText (nodes arcs : Nat) (density : Float) : String :=
  toString nodes ++ " node(s), " ++ toString arcs ++ " arc(s), density " ++ densityText density

def headerLines (report : Report) : List String :=
  let scan := report.scan
  [ "Dependency report",
    rule,
    "Tool: " ++ report.metadata.toolName ++ " " ++ report.metadata.toolVersion,
    "Created: " ++ report.metadata.timestamp,
    "Inputs: " ++ commaList report.metadata.inputs,
    "Units: " ++ toString scan.unitsParsed ++ " parsed, " ++ toString scan.unitsSkipped ++
      " skipped, " ++ toString scan.duplicateUnits ++ " duplicate",
    "References: " ++ toString scan.links ++ " linked, " ++ toString scan.missingReferences ++
      " unresolved" ] ++
  scan.skippedInputs.map ("Skipped input: " ++ ·) ++ [""]

def nodeLines (node : NodeSummary) : List String :=
  ("  " ++ node.name ++ " (" ++ toString node.units ++ " unit(s))") ::
    node.successors.map ("    -> " ++ ·)

def viewLines (view : ViewSummary) : List String :=
  ["View: " ++ view.level, rule] ++
  (if view.filters.isEmpty then [] else ["Filters: " ++ commaList view.filters]) ++
  [sizeText view.nodes.length view.arcCount view.density] ++
  view.nodes.flatMap nodeLines ++ [""]

def arcLines (arc : Arc) : List String :=
  ("  " ++ arc.source ++ " -> " ++ arc.target) ::
    arc.reasons.map fun reason => "      " ++ reason.source ++ " uses " ++ reason.target

def cycleLines (number : Nat) (cycle : Cycle) : List String :=
  ("Cycle " ++ toString number ++ " (" ++ toString cycle.nodes.length ++ " node(s)): " ++
    commaList cycle.nodes) :: cycle.arcs.flatMap arcLines

def cyclesLines (cycles : List Cycle) : List String :=
  ["Cycles", rule] ++
  (if cycles.isEmpty then ["No cycles found."]
  else (cycles.mapIdx fun index cycle => cycleLines (index + 1) cycle).flatten) ++ [""]

def levelLines (level : LevelMetrics) : List String :=
  [ level.level ++ ": " ++ sizeText level.nodeCount level.arcCount level.density,
    "  CCD " ++ toString level.cumulative ++ ", ACD " ++ couplingText level.average ++ ", RCD " ++
      couplingText level.relative ] ++
  level.worst.map fun offender =>
    "  worst: " ++ offender.name ++ " (depends on " ++ toString offender.dependsOn ++
      ", used by " ++ toString offender.usedBy ++ ")"

def metricsLines (metrics : List LevelMetrics) : List String :=
  ["Metrics", rule] ++ metrics.flatMap levelLines ++ [""]

/-- Nothing at all if nothing is missing. -/
def missingLines (missing : List MissingDependencies) : List String :=
  if missing.isEmpty then []
  else
    ["Missing dependencies", rule] ++
      missing.map fun entry => entry.unit ++ ": " ++ commaList entry.missing

def toText (report : Report) : String :=
  String.join ((headerLines report ++ viewLines report.view ++ cyclesLines report.cycles ++
    metricsLines report.metrics ++ missingLines report.missingDependencies).map (· ++ "\n"))

end ClassCoupling.Report
