import ClassCoupling.Program
import ClassCoupling.Proofs.Analysis.Cycles
import ClassCoupling.Proofs.ClassFile.Unit
import ClassCoupling.Proofs.Scan.Reachable

/-!
# Cycles and the exit code

What a run says meanwhile never changes how it ends, so the exit code follows from the results of
its steps alone. Of these only the report depends on whether just the cycles are shown, and neither its
cycles nor the way it is written do.
-/

namespace ClassCoupling.Program

/-! ## Results of tasks -/

section Results

variable {α β : Type} {files middle after : FileTree} {task : Task α} {next : α → Task β}

/-- A task that starts with `files` ends with the files and the result of an outcome, whatever was said
before it. -/
def Yields (files : FileTree) (task : Task α) (outcome : FileTree × Except Failure α) : Prop :=
  ∀ messages, ∃ said, task.run ⟨messages, files⟩ = (outcome.2, ⟨said, outcome.1⟩)

/-- A step that leaves the files as they are, and what comes after it if it does not fail. -/
def andThen (files : FileTree) (result : Except Failure α)
    (outcome : α → FileTree × Except Failure β) : FileTree × Except Failure β :=
  match result with
  | .error failure => (files, .error failure)
  | .ok a => outcome a

theorem run_bind (task : Task α) (next : α → Task β) (progress : Progress) :
    (task >>= next).run progress =
      ExceptT.bindCont next (task.run progress).1 (task.run progress).2 := rfl

theorem Yields.bind {a : α} {outcome : FileTree × Except Failure β}
    (first : Yields files task (middle, .ok a)) (rest : Yields middle (next a) outcome) :
    Yields files (task >>= next) outcome := by
  intro messages
  obtain ⟨said, ended⟩ := first messages
  obtain ⟨all, finished⟩ := rest said
  refine ⟨all, ?_⟩
  rw [run_bind, ended]
  exact finished

theorem Yields.bind_error {failure : Failure} (first : Yields files task (after, .error failure)) :
    Yields files (task >>= next) (after, .error failure) := by
  intro messages
  obtain ⟨said, ended⟩ := first messages
  refine ⟨said, ?_⟩
  rw [run_bind, ended]
  rfl

theorem Yields.andThen {result : Except Failure α} {outcome : α → FileTree × Except Failure β}
    (first : Yields files task (files, result)) (rest : ∀ a, Yields files (next a) (outcome a)) :
    Yields files (task >>= next) (andThen files result outcome) := by
  cases result with
  | error failure => exact first.bind_error
  | ok a => exact first.bind (rest a)

theorem yields_pure (a : α) : Yields files (pure a) (files, .ok a) := fun messages => ⟨messages, rfl⟩

theorem Yields.after_say {outcome : FileTree × Except Failure α} (yields : Yields files task outcome)
    (said : List String) : Yields files (say said >>= fun _ => task) outcome :=
  fun messages => yields (messages ++ said)

theorem yields_result (result : Except Failure α) :
    Yields files (liftM result) (files, result) := by
  intro messages
  refine ⟨messages, ?_⟩
  cases result <;> rfl

theorem yields_follow (quiet : Bool) (step : List Notice × Except Failure α) :
    Yields files (follow quiet step) (files, step.2) :=
  (yields_result step.2).after_say _

theorem yields_currentFiles : Yields files currentFiles (files, .ok files) :=
  fun messages => ⟨messages, rfl⟩

theorem yields_change (step : FileTree → FileTree × Except Failure α) :
    Yields files (change step) (step files) := by
  intro messages
  exact yields_result (step files).2 messages

end Results

/-! ## The exit code of a run -/

/-- The files after a report went to where it goes, with what is printed of it. -/
def presented (files : FileTree) (content : String) :
    Option String → FileTree × Except Failure String
  | none => (files, .ok content)
  | some path => ((writeTo path content files).1, (writeTo path content files).2.map fun _ => "")

def exitCodeFor (options : Options) (report : Report) : ExitCode :=
  if options.failOnCycles && report.hasCycles then .cyclesDetected else .success

/-- How a run ends that has come to a report. -/
def delivered (files : FileTree) (options : Options) (report : Report) :
    FileTree × Except Failure (ExitCode × String) :=
  let (files, output) := presented files (report.render options.format) options.output
  (files, output.map fun output => (exitCodeFor options report, output))

/-- How a run ends, without what it says meanwhile. -/
def conclusion (timestamp : String) (files : FileTree) (arguments : Arguments) :
    FileTree × Except Failure (ExitCode × String) :=
  andThen files (configOf files arguments.config) fun config =>
  andThen files (Options.merge arguments (config.getD {})) fun options =>
  andThen files (Scan.run ClassFile.defaultMaxMajor files.classSource (scanRequest options)).2
    fun project =>
  andThen files (Analysis.run timestamp project (analysisRequest options)).2 fun report =>
  delivered files options report

theorem yields_present (files : FileTree) (content : String) (path : Option String) :
    Yields files (present content path) (presented files content path) := by
  cases path with
  | none => exact yields_pure _
  | some path =>
    have written : Yields files (change (writeTo path content)) (writeTo path content files) :=
      yields_change _
    unfold present presented
    dsimp only
    generalize writeTo path content files = outcome at written ⊢
    obtain ⟨after, failure | done⟩ := outcome
    · exact written.bind_error
    · refine written.bind ?_
      exact (yields_pure "").after_say _

theorem yields_judge {files : FileTree} (options : Options) (report : Report) :
    Yields files (judge options report) (files, .ok (exitCodeFor options report)) := by
  unfold judge exitCodeFor
  split
  · exact fun messages => ⟨_, rfl⟩
  · exact fun messages => ⟨_, rfl⟩

theorem yields_analyse (timestamp : String) (files : FileTree) (arguments : Arguments) :
    Yields files (analyse timestamp arguments) (conclusion timestamp files arguments) := by
  unfold analyse conclusion
  refine yields_currentFiles.bind ?_
  refine (yields_result _).andThen fun config => ?_
  refine Yields.after_say ?_ _
  refine (yields_result _).andThen fun options => ?_
  refine (yields_follow _ _).andThen fun project => ?_
  refine (yields_follow _ _).andThen fun report => ?_
  refine Yields.after_say ?_ _
  have sent := yields_present files (report.render options.format) options.output
  unfold delivered
  generalize presented files (report.render options.format) options.output = outcome at sent ⊢
  obtain ⟨after, failure | output⟩ := outcome
  · exact sent.bind_error
  · exact sent.bind ((yields_judge options report).bind (yields_pure _))

/-- The exit code of a run that ends so. -/
def ending : Except Failure (ExitCode × String) → ExitCode
  | .ok (exitCode, _) => exitCode
  | .error _ => .applicationError

theorem run_concludes (timestamp : String) (files : FileTree) {words : List String}
    {arguments : Arguments} (parsed : Arguments.parse words = .ok arguments) :
    (run timestamp files words).exitCode = ending (conclusion timestamp files arguments).2 ∧
      (run timestamp files words).files = (conclusion timestamp files arguments).1 := by
  obtain ⟨said, ended⟩ := yields_analyse timestamp files arguments []
  unfold run
  rw [parsed]
  dsimp only
  rw [ended]
  generalize conclusion timestamp files arguments = outcome
  obtain ⟨after, failure | ⟨exitCode, output⟩⟩ := outcome
  · exact ⟨rfl, rfl⟩
  · exact ⟨rfl, rfl⟩

/-! ## What showing only the cycles changes -/

/-- What a report says does not decide whether it can be written. -/
theorem writeTo_result (files : FileTree) (path content other : String) :
    (writeTo path content files).2 = (writeTo path other files).2 := by
  unfold writeTo FileTree.writeReport FileTree.write
  cases files.requireParent (Path.ofText path) with
  | error details => rfl
  | ok _ =>
    cases files.requireNoOutputLink (Path.ofText path) with
    | error details => rfl
    | ok _ => rcases files.openToWrite (Path.ofText path) with ⟨after, error | location⟩ <;> rfl

theorem merge_cyclesOnly (arguments : Arguments) (config : Config) (cyclesOnly : Bool) :
    Options.merge { arguments with cyclesOnly } config =
      (Options.merge arguments config).map fun options => { options with cyclesOnly } := by
  unfold Options.merge
  cases Options.chooseFormat arguments.format config.format with
  | error failure => rfl
  | ok format => cases Options.chooseGranularity arguments.granularity config.view <;> rfl

theorem ending_delivered {files : FileTree} {options : Options} {report other : Report}
    (same : other.hasCycles = report.hasCycles) (cyclesOnly : Bool) :
    ending (delivered files { options with cyclesOnly } other).2 =
      ending (delivered files options report).2 := by
  have code : exitCodeFor { options with cyclesOnly } other = exitCodeFor options report := by
    unfold exitCodeFor
    rw [same]
  unfold delivered presented
  dsimp only
  rw [code]
  cases options.output with
  | none => rfl
  | some path =>
    dsimp only
    rw [writeTo_result files path (other.render options.format) (report.render options.format)]

theorem ending_cyclesOnly (timestamp : String) (files : FileTree) (arguments : Arguments)
    (cyclesOnly : Bool) :
    ending (conclusion timestamp files { arguments with cyclesOnly }).2 =
      ending (conclusion timestamp files arguments).2 := by
  unfold conclusion
  dsimp only
  cases configOf files arguments.config with
  | error failure => rfl
  | ok config =>
    simp only [merge_cyclesOnly, andThen]
    cases Options.merge arguments (config.getD {}) with
    | error failure => rfl
    | ok options =>
      have scan : scanRequest { options with cyclesOnly } = scanRequest options := rfl
      simp only [Except.map, scan]
      cases scanned : (Scan.run ClassFile.defaultMaxMajor files.classSource
          (scanRequest options)).2 with
      | error failure => rfl
      | ok project =>
        have analysis : analysisRequest { options with cyclesOnly } =
          { analysisRequest options with cyclesOnly } := rfl
        dsimp only
        rw [analysis]
        cases accepted : (Analysis.run timestamp project (analysisRequest options)).2 with
        | error failure => rw [Analysis.run_eq_error accepted cyclesOnly]
        | ok report =>
          obtain ⟨other, again, same⟩ :=
            Analysis.exists_same_cycles (Scan.reachable_run scanned) accepted cyclesOnly
          rw [again]
          exact ending_delivered same.hasCycles_eq cyclesOnly

/-! ## The cycles of a report -/

open Relation Tree

/-- The cycles of a report are the classes of nodes on common closed walks of unexcused arcs in the
shown snapshot, each once and with all its arcs, each arc with a reason. Neither they nor the exit
code depend on whether only cycles are shown. -/
theorem report_describes_unexcused_cycles {maxMajor : Nat} {source : Scan.Source}
    {scan : Scan.Request} {project : Scan.Project} {timestamp : String}
    {request : Analysis.Request} {report : Report}
    (scanned : (Scan.run maxMajor source scan).2 = .ok project)
    (accepted : (Analysis.run timestamp project request).2 = .ok report) :
    let t := (request.granularity.apply project.tree).1
    let view := Analysis.narrow t request (.ofTree t)
    (report.hasCycles = true ↔ ∃ x, TransGen (view.Unexcused t) x x) ∧
    (∃ cycles, DescribesCycles (view.Unexcused t) cycles ∧
      report.cycles = cycles.map (Analysis.cycleOf t)) ∧
    (∀ cycle ∈ report.cycles, ∀ arc ∈ cycle.arcs, arc.reasons ≠ []) ∧
    (∀ cyclesOnly, ∃ other,
      (Analysis.run timestamp project { request with cyclesOnly }).2 = .ok other ∧
      other.hasCycles = report.hasCycles ∧
      Analysis.SameCycles report.cycles other.cycles) ∧
    ∀ files words flagged arguments cyclesOnly, Arguments.parse words = .ok arguments →
      Arguments.parse flagged = .ok { arguments with cyclesOnly } →
      (run timestamp files flagged).exitCode = (run timestamp files words).exitCode := by
  intro t view
  have reached : project.tree.Reachable := Scan.reachable_run scanned
  obtain ⟨cycles, describes, reported⟩ := Analysis.exists_cycles reached accepted
  refine ⟨?_, ⟨cycles, describes, reported⟩, ?_, ?_, ?_⟩
  · have empty : report.hasCycles = false ↔ cycles = [] := by
      simp [Report.hasCycles, reported]
    rw [← Bool.not_eq_false, empty, describes.eq_nil_iff]
    exact not_forall_not
  · intro _ listed _ shown
    rw [reported] at listed
    obtain ⟨cycle, mem, rfl⟩ := List.mem_map.mp listed
    obtain ⟨⟨u, v⟩, arc, rfl⟩ := List.mem_map.mp shown
    have joined := ((describes.mem_arcs cycle mem u v).mp arc).2.2
    have reasons := Analysis.reasons_ne_nil (Granularity.reachable_apply reached) joined
    simpa [Analysis.arcSummary, explain, Analysis.shownTree] using reasons
  · intro cyclesOnly
    obtain ⟨other, again, same⟩ := Analysis.exists_same_cycles reached accepted cyclesOnly
    exact ⟨other, again, same.hasCycles_eq, same⟩
  · intro files words flagged arguments cyclesOnly parsed parsedFlagged
    rw [(run_concludes timestamp files parsed).1, (run_concludes timestamp files parsedFlagged).1]
    exact ending_cyclesOnly timestamp files arguments cyclesOnly

/-- Two units that use each other, and an inner unit of the first that does so too. -/
def sampleSource : Scan.Source where
  supports _ := true
  pathExists _ := true
  load path := .ok ⟨"dir:" ++ path, [
    ⟨"A", "a.A", ClassFile.unitBytes "a/A" ["a/B", "a/A$I"]⟩,
    ⟨"B", "a.B", ClassFile.unitBytes "a/B" ["a/A"]⟩,
    ⟨"I", "a.A$I", ClassFile.unitBytes "a/A$I" ["a/A"]⟩]⟩

def sampleProject : Scan.Project where
  tree := [.createLeaf root "dir:p.a.A", .createLeaf root "dir:p.a.B",
    .createLeaf root "dir:p.a.A$I", .link 3 5, .link 3 4, .link 4 3, .link 5 3].foldl perform .empty
  found := 3
  parsed := 3
  duplicates := 0
  links := 4
  missing := 0
  skippedUnits := []
  skippedInputs := []
  inputs := ["dir:p"]

theorem report_describes_unexcused_cycles_sample :
    (Scan.run 61 sampleSource { paths := ["p"] }).2 = .ok sampleProject ∧
    ∃ report, (Analysis.run "now" sampleProject {}).2 = .ok report ∧ report.hasCycles = true ∧
      (∃ other, (Analysis.run "now" sampleProject { cyclesOnly := true }).2 = .ok other ∧
        other.hasCycles = true) ∧
      ∀ files, (run "now" files ["p", "--fail-on-cycles", "--cycles-only"]).exitCode =
        (run "now" files ["p", "--fail-on-cycles"]).exitCode := by
  have scanned : (Scan.run 61 sampleSource { paths := ["p"] }).2 = .ok sampleProject := by
    decide +kernel
  have focus : ∃ focus, UnitFilter.make [] [] UnitFilter.defaultFocus = .ok focus := by
    cases made : UnitFilter.make [] [] UnitFilter.defaultFocus with
    | ok focus => exact ⟨focus, rfl⟩
    | error fault =>
      have accepts : (UnitFilter.make [] [] UnitFilter.defaultFocus).isOk = true := by
        decide +kernel
      rw [made] at accepts
      cases accepts
  obtain ⟨focus, made⟩ := focus
  have accepted : (Analysis.run "now" sampleProject {}).2 =
      .ok (Analysis.reportOn "now" sampleProject {} focus).2 := by
    simp only [Analysis.run, made]
  obtain ⟨cyclic, -, -, same, codes⟩ := report_describes_unexcused_cycles scanned accepted
  have there : Analysis.Unexcused (Granularity.classes.apply sampleProject.tree).1 {} 3 4 :=
    ⟨by decide +kernel, by decide +kernel⟩
  have back : Analysis.Unexcused (Granularity.classes.apply sampleProject.tree).1 {} 4 3 :=
    ⟨by decide +kernel, by decide +kernel⟩
  have found := cyclic.mpr ⟨3, .tail (.single there) back⟩
  obtain ⟨other, again, equal, -⟩ := same true
  refine ⟨scanned, _, accepted, found, ⟨other, again, equal.trans found⟩, ?_⟩
  intro files
  exact codes files ["p", "--fail-on-cycles"] ["p", "--fail-on-cycles", "--cycles-only"]
    { paths := ["p"], failOnCycles := true } true (by decide +kernel) (by decide +kernel)

end ClassCoupling.Program
