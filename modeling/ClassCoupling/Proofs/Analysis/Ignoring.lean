import ClassCoupling.Proofs.Analysis.Likeness
import ClassCoupling.Proofs.Scan.Ignoring

/-!
# What ignoring names from outside changes in a report

The metrics and the view of a project are those of the project without some missing names. Its
cycles are so as well unless a test or a suite was known as one by such a name alone: then arcs lose
their excuse, and cycles may appear.
-/

namespace ClassCoupling

open Relation Tree

/-- A report without what it says about missing dependencies. -/
def Report.apartFromMissing (report : Report) : Report :=
  { report with scan := { report.scan with missingReferences := 0 }, missingDependencies := [] }

namespace Excuse

variable {t : Tree} {dropped : String → Prop} [DecidablePred dropped]

theorem mem_missing_of_omitting {leaf : NodeId} {name : String}
    (listed : name ∈ (t.omitting dropped).missing leaf) : name ∈ t.missing leaf := by
  rw [missing_omitting] at listed
  exact (List.mem_filter.mp listed).1

theorem keepsMarks_of_omitting : KeepsMarks (t.omitting dropped) t :=
  .of_missing sameShape_omitting.symm sameLinks_omitting.symm fun _ _ _ => mem_missing_of_omitting

/-- No mark is lost with names that are no markers. -/
theorem keepsMarks_omitting (others : ∀ marker ∈ suiteMarkers ++ testMarkers, ¬ dropped marker) :
    KeepsMarks t (t.omitting dropped) := by
  refine .of_missing sameShape_omitting sameLinks_omitting ?_
  intro marker known leaf listed
  rw [missing_omitting]
  exact List.mem_filter.mpr ⟨listed, decide_eq_true (others marker known)⟩

end Excuse

namespace Analysis

variable {t t' : Tree} {request : Request} {u v : NodeId}

/-! ## Excuses that are lost -/

theorem sameMarks_apply (granularity : Granularity) (tree : t.Contained) :
    Excuse.SameMarks t (granularity.apply t).1 :=
  .of_missing (Granularity.sameShape_apply tree) (Granularity.sameLinks_apply tree)
    (Granularity.missing_apply tree)

variable {project project' : Scan.Project} {timestamp : String} {report report' : Report}

theorem hasCycles_iff (reached : project.tree.Reachable)
    (accepted : (run timestamp project request).2 = .ok report) :
    report.hasCycles = true ↔
      ∃ x, TransGen (Unexcused (shownTree project request) request) x x := by
  obtain ⟨cycles, describes, reported⟩ := exists_cycles reached accepted
  have none : report.hasCycles = false ↔ cycles = [] := by simp [Report.hasCycles, reported]
  rw [← Bool.not_eq_false, none, describes.eq_nil_iff, not_forall]
  simp only [not_not]

/-- What loses marks keeps its cycles. -/
theorem closed_walk_of_keepsMarks (same : SameGraph project.tree project'.tree)
    (tree : project.tree.Contained) (marks : Excuse.KeepsMarks project'.tree project.tree)
    {x : NodeId} (walk : TransGen (Unexcused (shownTree project request) request) x x) :
    TransGen (Unexcused (shownTree project' request) request) x x := by
  have tree' := tree.of_sameShape same.shape
  have alike : Alike (shownTree project request) (shownTree project' request) :=
    Granularity.alike_apply tree same
  have shown : (shownTree project request).Contained :=
    tree.of_sameShape (Granularity.sameShape_apply tree)
  have marked : Excuse.KeepsMarks (shownTree project' request) (shownTree project request) :=
    ((sameMarks_apply request.granularity tree').no_others.trans marks).trans
      (sameMarks_apply request.granularity tree).kept
  exact TransGen.mono (fun u v arc => unexcused_of_keepsMarks alike shown marked arc) _ _ walk

/-! ## Two reports -/

/-- What the reports on a project and on one that lost some missing names have in common. -/
structure Agree (project project' : Scan.Project) (request : Request) (report report' : Report) :
    Prop where
  metrics : report'.metrics = report.metrics
  view : request.cyclesOnly = false → report'.view = report.view
  cycles_stay : report.hasCycles = true → report'.hasCycles = true
  verdict : report'.hasCycles = report.hasCycles ↔
    ((∃ x, TransGen (Unexcused (shownTree project' request) request) x x) →
      ∃ x, TransGen (Unexcused (shownTree project request) request) x x)
  all : Excuse.KeepsMarks project.tree project'.tree →
    report'.apartFromMissing = report.apartFromMissing

section Omits

variable {extra : List String} (omits : project.Omits extra project')
  (reached : project.tree.Reachable)
include omits

theorem sameGraph_of_omits : SameGraph project.tree project'.tree := by
  rw [omits.tree]
  exact sameGraph_omitting

theorem keepsMarks_of_omits : Excuse.KeepsMarks project'.tree project.tree := by
  rw [omits.tree]
  exact Excuse.keepsMarks_of_omitting

include reached

theorem apartFromMissing_reportOn (marks : Excuse.KeepsMarks project.tree project'.tree)
    (timestamp : String) (request : Request) (focus : UnitFilter) :
    (reportOn timestamp project' request focus).2.apartFromMissing =
      (reportOn timestamp project request focus).2.apartFromMissing := by
  have tree := reached.wellFormed.toContained
  have same := sameGraph_of_omits omits
  have marked : Excuse.SameMarks project.tree project'.tree := ⟨marks, keepsMarks_of_omits omits⟩
  have metrics := metrics_reportOn timestamp timestamp request focus same tree
  have view := view_reportOn timestamp timestamp request focus same tree fun _ => marked
  have cycles := cycles_reportOn timestamp timestamp request focus same tree marked
  have scan : { scanSummary project' with missingReferences := 0 } =
      { scanSummary project with missingReferences := 0 } := by
    rw [omits.eq_omitting]
    rfl
  have inputs : project'.inputs = project.inputs := by rw [omits.eq_omitting]
  calc (reportOn timestamp project' request focus).2.apartFromMissing
    _ = { metadata := ⟨toolName, toolVersion, timestamp, project'.inputs⟩
          scan := { scanSummary project' with missingReferences := 0 }
          view := (reportOn timestamp project' request focus).2.view
          cycles := (reportOn timestamp project' request focus).2.cycles
          metrics := (reportOn timestamp project' request focus).2.metrics
          missingDependencies := [] } := rfl
    _ = (reportOn timestamp project request focus).2.apartFromMissing := by
      rw [inputs, scan, view, cycles, metrics]
      rfl

theorem agree_of_omits (reached' : project'.tree.Reachable)
    (accepted : (run timestamp project request).2 = .ok report)
    (accepted' : (run timestamp project' request).2 = .ok report') :
    Agree project project' request report report' := by
  have tree := reached.wellFormed.toContained
  have same := sameGraph_of_omits omits
  have cyclic := hasCycles_iff reached accepted
  have cyclic' := hasCycles_iff reached' accepted'
  have walks : (∃ x, TransGen (Unexcused (shownTree project request) request) x x) →
      ∃ x, TransGen (Unexcused (shownTree project' request) request) x x := by
    rintro ⟨x, walk⟩
    exact ⟨x, closed_walk_of_keepsMarks same tree (keepsMarks_of_omits omits) walk⟩
  obtain ⟨focus, made, rfl⟩ := exists_focus accepted
  obtain ⟨focus', made', rfl⟩ := exists_focus accepted'
  cases Except.ok.inj (made.symm.trans made')
  refine
    { metrics := metrics_reportOn timestamp timestamp request focus same tree
      view := ?_
      cycles_stay := fun found => cyclic'.mpr (walks (cyclic.mp found))
      verdict := ?_
      all := fun marks => apartFromMissing_reportOn omits reached marks timestamp request focus }
  · intro whole
    exact view_reportOn timestamp timestamp request focus same tree fun asked => by
      rw [whole] at asked
      cases asked
  · rw [Bool.eq_iff_iff, cyclic, cyclic']
    exact ⟨Iff.mp, fun lost => ⟨lost, walks⟩⟩

end Omits

/-- Patterns that accept the name of no unit change nothing but what is missing, as long as no leaf
is known as a test or as a suite by a name that they accept. Beyond that, they add cycles at most. -/
theorem run_ignores_outer_names {maxMajor : Nat} {source : Scan.Source}
    {request other : Scan.Request} {extra : List String}
    (more : request.IgnoresMore other extra)
    (outside : ∀ unit ∈ Scan.collectedUnits source request, ¬ Scan.Matched extra unit.unit.name)
    (scanned : (Scan.run maxMajor source request).2 = .ok project)
    (scanned' : (Scan.run maxMajor source other).2 = .ok project') :
    SameShape project.tree project'.tree ∧ SameLinks project.tree project'.tree ∧
    project.Omits extra project' ∧
    ∀ (timestamp : String) (analysis : Request),
      (∃ failure, (run timestamp project analysis).2 = .error failure ∧
        (run timestamp project' analysis).2 = .error failure) ∨
      ∃ report report', (run timestamp project analysis).2 = .ok report ∧
        (run timestamp project' analysis).2 = .ok report' ∧
        Agree project project' analysis report report' := by
  have reached := Scan.reachable_run scanned
  have reached' := Scan.reachable_run scanned'
  have omits := Scan.omits_of_run more outside scanned scanned'
  have same := sameGraph_of_omits omits
  refine ⟨same.shape, same.links, omits, fun timestamp analysis => ?_⟩
  cases made : UnitFilter.make [] [] analysis.focus with
  | error fault =>
    exact .inl ⟨.pattern fault, by simp only [run, made], by simp only [run, made]⟩
  | ok focus =>
    have accepted : ∀ p : Scan.Project, (run timestamp p analysis).2 =
        .ok (reportOn timestamp p analysis focus).2 := by
      intro p
      simp only [run, made]
    exact .inr ⟨_, _, accepted project, accepted project',
      agree_of_omits omits reached reached' (accepted project) (accepted project')⟩

/-! ## A cycle that a suite closes -/

/-- A suite that lists a test below it, and a helper beside the suite that the test uses. -/
def suites : Scan.Source where
  supports _ := true
  pathExists _ := true
  load path := .ok ⟨"dir:" ++ path, [
    ⟨"AllTests", "x.AllTests",
      ClassFile.unitBytes "x/AllTests" ["org/junit/runner/RunWith", "x/y/FooTest"]⟩,
    ⟨"Helper", "x.Helper", ClassFile.unitBytes "x/Helper" ["lib/Log"]⟩,
    ⟨"FooTest", "x.y.FooTest",
      ClassFile.unitBytes "x/y/FooTest" ["org/junit/Test", "x/Helper"]⟩]⟩

def suiteRequest (extra : List String) : Scan.Request where
  paths := ["p"]
  ignoredUnits := "java.*" :: extra

def suiteProject : Scan.Project where
  tree := [.createLeaf root "dir:p.x.AllTests", .createLeaf root "dir:p.x.Helper",
    .createLeaf root "dir:p.x.y.FooTest", .recordMissing 3 "org.junit.runner.RunWith", .link 3 6,
    .recordMissing 4 "lib.Log", .recordMissing 6 "org.junit.Test", .link 6 4].foldl perform .empty
  found := 3
  parsed := 3
  duplicates := 0
  links := 2
  missing := 3
  skippedUnits := []
  skippedInputs := []
  inputs := ["dir:p"]

def suiteProjectWithout (extra : List String) (missing : Nat) : Scan.Project :=
  { suiteProject with tree := suiteProject.tree.omitting (Scan.Matched extra), missing }

def packageView : Request where
  granularity := .packages

theorem suiteRequest_ignoresMore (extra : List String) :
    (suiteRequest []).IgnoresMore (suiteRequest extra) extra :=
  ⟨rfl, rfl, by simp [suiteRequest]⟩

theorem run_suiteRequest : (Scan.run 61 suites (suiteRequest [])).2 = .ok suiteProject := by
  decide +kernel

theorem exists_report (project : Scan.Project) :
    ∃ report, (run "now" project packageView).2 = .ok report := by
  have accepts : (UnitFilter.make [] [] packageView.focus).isOk = true := by decide +kernel
  cases made : UnitFilter.make [] [] packageView.focus with
  | error fault =>
    rw [made] at accepts
    cases accepts
  | ok focus => exact ⟨(reportOn "now" project packageView focus).2, by simp only [run, made]⟩

theorem run_ignores_outer_names_suites :
    (suiteRequest []).IgnoresMore (suiteRequest ["lib.*"]) ["lib.*"] ∧
    (∀ unit ∈ Scan.collectedUnits suites (suiteRequest []),
      ¬ Scan.Matched ["lib.*"] unit.unit.name) ∧
    (Scan.run 61 suites (suiteRequest [])).2 = .ok suiteProject ∧
    (Scan.run 61 suites (suiteRequest ["lib.*"])).2 = .ok (suiteProjectWithout ["lib.*"] 2) ∧
    ∃ report report', (run "now" suiteProject packageView).2 = .ok report ∧
      (run "now" (suiteProjectWithout ["lib.*"] 2) packageView).2 = .ok report' ∧
      report'.apartFromMissing = report.apartFromMissing := by
  have outside : ∀ unit ∈ Scan.collectedUnits suites (suiteRequest []),
      ¬ Scan.Matched ["lib.*"] unit.unit.name := by decide +kernel
  have scanned' : (Scan.run 61 suites (suiteRequest ["lib.*"])).2 =
      .ok (suiteProjectWithout ["lib.*"] 2) := by decide +kernel
  have marks : Excuse.KeepsMarks suiteProject.tree (suiteProjectWithout ["lib.*"] 2).tree :=
    Excuse.keepsMarks_omitting (by decide +kernel)
  refine ⟨suiteRequest_ignoresMore _, outside, run_suiteRequest, scanned', ?_⟩
  obtain ⟨-, -, -, reports⟩ :=
    run_ignores_outer_names (suiteRequest_ignoresMore _) outside run_suiteRequest scanned'
  rcases reports "now" packageView with ⟨failure, rejected, -⟩ |
    ⟨report, report', accepted, accepted', agree⟩
  · obtain ⟨report, accepted⟩ := exists_report suiteProject
    rw [rejected] at accepted
    cases accepted
  · exact ⟨report, report', accepted, accepted', agree.all marks⟩

/-- With the markers ignored, the suite is no suite any more and closes a cycle of packages. -/
theorem ignored_markers_close_cycle :
    (suiteRequest []).IgnoresMore (suiteRequest ["org.junit.*"]) ["org.junit.*"] ∧
    (∀ unit ∈ Scan.collectedUnits suites (suiteRequest []),
      ¬ Scan.Matched ["org.junit.*"] unit.unit.name) ∧
    (Scan.run 61 suites (suiteRequest [])).2 = .ok suiteProject ∧
    (Scan.run 61 suites (suiteRequest ["org.junit.*"])).2 =
      .ok (suiteProjectWithout ["org.junit.*"] 1) ∧
    ∃ report report', (run "now" suiteProject packageView).2 = .ok report ∧
      (run "now" (suiteProjectWithout ["org.junit.*"] 1) packageView).2 = .ok report' ∧
      report.hasCycles = false ∧ report'.hasCycles = true := by
  have outside : ∀ unit ∈ Scan.collectedUnits suites (suiteRequest []),
      ¬ Scan.Matched ["org.junit.*"] unit.unit.name := by decide +kernel
  have scanned' : (Scan.run 61 suites (suiteRequest ["org.junit.*"])).2 =
      .ok (suiteProjectWithout ["org.junit.*"] 1) := by decide +kernel
  obtain ⟨report, accepted⟩ := exists_report suiteProject
  obtain ⟨report', accepted'⟩ := exists_report (suiteProjectWithout ["org.junit.*"] 1)
  refine ⟨suiteRequest_ignoresMore _, outside, run_suiteRequest, scanned', report, report',
    accepted, accepted', ?_, ?_⟩
  · -- One arc is left, and it leads from a later node to an earlier one.
    have arcs : (Snapshot.ofTree (shownTree suiteProject packageView)).nodeArcs =
        [(5, 2), (2, 5)] := by decide +kernel
    have excused : Excuse.coversArc (shownTree suiteProject packageView) 2 5 = true := by
      decide +kernel
    have descends : ∀ u v, Unexcused (shownTree suiteProject packageView) packageView u v →
        v < u := by
      rintro u v ⟨arc, unexcused⟩
      change (u, v) ∈ (Snapshot.ofTree _).nodeArcs at arc
      rw [arcs] at arc
      simp only [List.mem_cons, Prod.mk.injEq, List.not_mem_nil, or_false] at arc
      rcases arc with ⟨rfl, rfl⟩ | ⟨rfl, rfl⟩
      · decide
      · rw [excused] at unexcused
        cases unexcused
    rw [← Bool.not_eq_true, hasCycles_iff (Scan.reachable_run run_suiteRequest) accepted]
    rintro ⟨x, walk⟩
    have lower := TransGen.mono descends _ _ walk
    rw [transGen_eq_self] at lower
    exact Nat.lt_irrefl x lower
  · apply (hasCycles_iff (Scan.reachable_run scanned') accepted').mpr
    have there : Unexcused (shownTree (suiteProjectWithout ["org.junit.*"] 1) packageView)
        packageView 2 5 := ⟨by decide +kernel, by decide +kernel⟩
    have back : Unexcused (shownTree (suiteProjectWithout ["org.junit.*"] 1) packageView)
        packageView 5 2 := ⟨by decide +kernel, by decide +kernel⟩
    exact ⟨2, .tail (.single there) back⟩

end Analysis

end ClassCoupling
