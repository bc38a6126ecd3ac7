import ClassCoupling.Report.Basic
import ClassCoupling.Scan.Project
import ClassCoupling.Snapshot.Coupling
import ClassCoupling.View.CyclesOnly
import ClassCoupling.View.Granularity
import ClassCoupling.View.Reachability

/-!
# Analysing a project

Coupling at every granularity first; then the requested granularity is shown, narrowed by the
requested views, and the cycles left in it are explained.
-/

namespace ClassCoupling.Analysis

structure Request where
  granularity : Granularity := .classes
  cyclesOnly : Bool := false
  /-- The node from which the view is taken, and which way. -/
  start : Option (String × Direction) := none
  /-- The patterns of the nodes that are the project's own. -/
  focus : List String := UnitFilter.defaultFocus
  deriving DecidableEq, Repr

def toolName : String := "classdeps"

def toolVersion : String := "0.4.0"

/-! ## Coupling -/

/-- The nodes that are measured: those in focus, but every input at the level of archives. -/
def measured (t : Tree) (focus : UnitFilter) (granularity : Granularity) : Snapshot :=
  match granularity with
  | .archives => .ofTree t
  | _ =>
    .ofNodes t ((t.walkVisible Tree.root).filter fun node =>
      t.hasOwnContent node && focus.inFocus (t.fullName node))

def offender (t : Tree) (s : Snapshot) (c : Coupling) (index : Nat) : Report.Offender where
  name := ((s.nodes[index]?).map t.fullName).getD ""
  dependsOn := c.dependsOn.getD index 0
  usedBy := c.usedBy.getD index 0

def levelMetrics (t : Tree) (focus : UnitFilter) (granularity : Granularity) :
    Report.LevelMetrics :=
  let s := measured t focus granularity
  let c := s.coupling
  { level := granularity.describe
    nodeCount := s.size
    arcCount := s.arcCount
    density := s.density
    cumulative := c.cumulative
    average := c.average
    relative := c.relative
    worst := c.worst.map fun (index, _) => offender t s c index }

/-- Measures at each granularity in turn; the tree is left as the last one shows it. -/
def measureAll (focus : UnitFilter) : Tree → List Granularity → Tree × List Report.LevelMetrics
  | t, [] => (t, [])
  | t, granularity :: more =>
    let (t, _) := granularity.apply t
    let level := levelMetrics t focus granularity
    let (t, levels) := measureAll focus t more
    (t, level :: levels)

/-! ## The shown part -/

/-- The views that were asked for and fit, and a warning if one does not. -/
def requestedViews (t : Tree) (s : Snapshot) (request : Request) : List Notice × ViewStack :=
  let (notices, stack) :=
    match request.start with
    | none => ([], ViewStack.empty)
    | some (fullName, direction) =>
      let view := View.reachability fullName direction
      match view.applicable t s with
      | .ok true => ([], (ViewStack.empty.push view).1)
      | _ =>
        ([Notice.error ("⚠️  Warning: filter '" ++ view.name ++ "' ignored. " ++
          (Problem.unknownNode fullName).message)], ViewStack.empty)
  (notices, if request.cyclesOnly then (stack.push View.cyclesOnly).1 else stack)

def nodeSummaries (t : Tree) (s : Snapshot) : List Report.NodeSummary :=
  s.entries.map fun entry =>
    { name := t.fullName entry.node
      units := entry.units
      successors := entry.successors.map t.fullName }

/-! ## Cycles -/

def arcSummary (t : Tree) (source target : NodeId) : Report.Arc where
  source := t.fullName source
  target := t.fullName target
  reasons := (t.explain source target).map fun (a, b) => ⟨a, b⟩

/-- A cycle given by its entries: its nodes, and the arcs among them. -/
def cycleSummary (t : Tree) (members : List Entry) : Report.Cycle :=
  let nodes := members.map (·.node)
  { nodes := nodes.map t.fullName
    arcs := members.flatMap fun entry =>
      (entry.successors.filter fun target => target ∈ nodes).map (arcSummary t entry.node) }

/-- The cycles left once excused arcs are dropped. -/
def cycleSummaries (t : Tree) (s : Snapshot) : List Report.Cycle :=
  (s.unexcusedCycles t).cycles.map (cycleSummary t)

/-! ## Missing dependencies -/

def missingDependencies (t : Tree) (focus : UnitFilter) : List Report.MissingDependencies :=
  let leaves := (t.walkAll Tree.root).filter fun node =>
    t.isLeaf node && focus.inFocus (t.fullName node) && !(t.missing node).isEmpty
  let entries : List Report.MissingDependencies :=
    leaves.map fun leaf => ⟨t.displayName leaf, t.missing leaf⟩
  entries.mergeSort fun a b => a.unit ≤ b.unit

/-! ## The analysis -/

def scanSummary (project : Scan.Project) : Report.ScanSummary where
  unitsParsed := project.parsed
  unitsSkipped := project.skippedUnits.length
  duplicateUnits := project.duplicates
  links := project.links
  missingReferences := project.missing
  skippedInputs := project.skippedInputs

/-- The report on what is shown, with the warnings made on the way. -/
def reportOn (timestamp : String) (project : Scan.Project) (request : Request)
    (focus : UnitFilter) : List Notice × Report :=
  let (t, metrics) := measureAll focus project.tree Granularity.all
  let (t, _) := request.granularity.apply t
  let all := Snapshot.ofTree t
  let (notices, stack) := requestedViews t all request
  let (stack, shown) := stack.apply t all
  (notices,
    { metadata := ⟨toolName, toolVersion, timestamp, project.inputs⟩
      scan := scanSummary project
      view := {
        level := request.granularity.describe
        filters := stack.names
        nodes := nodeSummaries t shown
        arcCount := shown.arcCount
        density := shown.density }
      cycles := cycleSummaries t shown
      metrics
      missingDependencies := missingDependencies t focus })

def summary (report : Report) : Notice :=
  .report ("✅ Analysis complete: " ++ toString report.view.nodes.length ++ " node(s), " ++
    toString report.cycles.length ++ " cycle(s)")

def run (timestamp : String) (project : Scan.Project) (request : Request) :
    List Notice × Except Failure Report :=
  match UnitFilter.make [] [] request.focus with
  | .error fault => ([], .error (.pattern fault))
  | .ok focus =>
    let (notices, report) := reportOn timestamp project request focus
    (.report "📊 Computing coupling metrics..." :: notices ++ [summary report], .ok report)

end ClassCoupling.Analysis
