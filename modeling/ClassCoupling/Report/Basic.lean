/-!
# Reports

Everything a rendering shows, in plain values: nothing in a report refers back to the tree.
-/

namespace ClassCoupling

namespace Report

structure Metadata where
  toolName : String
  toolVersion : String
  /-- When the report was made. -/
  timestamp : String
  inputs : List String

structure ScanSummary where
  unitsParsed : Nat
  unitsSkipped : Nat
  duplicateUnits : Nat
  links : Nat
  missingReferences : Nat
  skippedInputs : List String

structure NodeSummary where
  name : String
  units : Nat
  successors : List String

structure ViewSummary where
  /-- The granularity. -/
  level : String
  /-- The names of the views that were applied. -/
  filters : List String
  nodes : List NodeSummary
  arcCount : Nat
  density : Float

structure Reason where
  source : String
  target : String

/-- An arc of a cycle and the references between units behind it. -/
structure Arc where
  source : String
  target : String
  reasons : List Reason

structure Cycle where
  nodes : List String
  arcs : List Arc

structure Offender where
  name : String
  dependsOn : Nat
  usedBy : Nat

/-- The coupling at one granularity. -/
structure LevelMetrics where
  level : String
  nodeCount : Nat
  arcCount : Nat
  density : Float
  cumulative : Nat
  average : Float
  relative : Float
  worst : List Offender

structure MissingDependencies where
  unit : String
  missing : List String

end Report

structure Report where
  metadata : Report.Metadata
  scan : Report.ScanSummary
  view : Report.ViewSummary
  /-- The cycles of what is shown, largest first. -/
  cycles : List Report.Cycle
  metrics : List Report.LevelMetrics
  missingDependencies : List Report.MissingDependencies

def Report.hasCycles (report : Report) : Bool := !report.cycles.isEmpty

end ClassCoupling
