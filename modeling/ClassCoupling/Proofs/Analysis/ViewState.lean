import ClassCoupling.Proofs.Analysis.Likeness
import ClassCoupling.Proofs.Snapshot.Excused

/-!
# A report does not depend on what was shown before

A granularity leaves no container below the root as it was found, so each level is measured, and the
view taken, on trees that look alike wherever the analysis started from.
-/

namespace ClassCoupling

open Tree

variable {t t' : Tree}

/-! ## What a granularity leaves behind -/

/-- A granularity decides every mode below the root, counts what it changes, and does so once. -/
structure Granularity.Settles (granularity : Granularity) (t : Tree) : Prop where
  mode : ∀ id < t.size, id ≠ root → t.isLeaf id = false →
    (granularity.apply t).1.mode id = granularity.modeFor t id
  count : (granularity.apply t).2 = (changedContainers t (granularity.apply t).1).length
  generation : (granularity.apply t).1.generation = t.generation + (granularity.apply t).2
  again : granularity.apply (granularity.apply t).1 = ((granularity.apply t).1, 0)

theorem Granularity.settles (granularity : Granularity) (tree : t.Contained) :
    granularity.Settles t where
  mode id present below container := by rw [mode_apply tree present container, if_neg below]
  count := (apply_counts tree).1
  generation := (apply_counts tree).2
  again := apply_apply tree

/-! ## Reports on one graph -/

/-- The same report, made at another time. -/
def Report.stamped (report : Report) (timestamp : String) : Report :=
  { report with metadata := { report.metadata with timestamp } }

namespace Analysis

variable {project : Scan.Project}

theorem reportOn_eq_stamped (same : SameGraph project.tree t')
    (missing : t'.missing = project.tree.missing) (tree : project.tree.Contained)
    (timestamp later : String) (request : Request) (focus : UnitFilter) :
    (reportOn later { project with tree := t' } request focus).2 =
      (reportOn timestamp project request focus).2.stamped later := by
  have marks : Excuse.SameMarks project.tree t' := .of_missing same.shape same.links missing
  have other : SameGraph project.tree ({ project with tree := t' } : Scan.Project).tree := same
  have metrics := metrics_reportOn timestamp later request focus other tree
  have view := view_reportOn timestamp later request focus other tree fun _ => marks
  have cycles := cycles_reportOn timestamp later request focus other tree marks
  have missing := missingDependencies_reportOn timestamp later request focus other tree missing
  calc (reportOn later { project with tree := t' } request focus).2
    _ = { metadata := ⟨toolName, toolVersion, later, project.inputs⟩
          scan := scanSummary project
          view := (reportOn later { project with tree := t' } request focus).2.view
          cycles := (reportOn later { project with tree := t' } request focus).2.cycles
          metrics := (reportOn later { project with tree := t' } request focus).2.metrics
          missingDependencies :=
            (reportOn later { project with tree := t' } request focus).2.missingDependencies } := rfl
    _ = (reportOn timestamp project request focus).2.stamped later := by
      rw [view, cycles, metrics, missing]
      rfl

/-- Of two trees that differ in list modes below the root, every granularity makes one picture, and
the analysis one report. -/
theorem run_ignores_view_state (reached : project.tree.Reachable)
    (shape : SameShape project.tree t') (links : SameLinks project.tree t')
    (missing : t'.missing = project.tree.missing)
    (root_mode : t'.mode root = project.tree.mode root) :
    (∀ granularity : Granularity, granularity.Settles project.tree ∧ granularity.Settles t' ∧
      Snapshot.ofTree (granularity.apply t').1 =
        (Snapshot.ofTree (granularity.apply project.tree).1).dated
          (granularity.apply t').1.generation) ∧
    ∀ timestamp later : String, ∀ request : Request,
      (run later { project with tree := t' } request).1 = (run timestamp project request).1 ∧
      (run later { project with tree := t' } request).2 =
        (run timestamp project request).2.map (·.stamped later) := by
  have tree := reached.wellFormed.toContained
  have same : SameGraph project.tree t' := ⟨shape, links, root_mode⟩
  constructor
  · intro granularity
    refine ⟨granularity.settles tree, granularity.settles (tree.of_sameShape shape), ?_⟩
    exact (Granularity.alike_apply tree same).ofTree
      (tree.of_sameShape (Granularity.sameShape_apply tree))
  · intro timestamp later request
    unfold run
    cases UnitFilter.make [] [] request.focus with
    | error fault => exact ⟨rfl, rfl⟩
    | ok focus =>
      have report := reportOn_eq_stamped same missing tree timestamp later request focus
      have other : SameGraph project.tree ({ project with tree := t' } : Scan.Project).tree := same
      have notices := notices_reportOn timestamp later request focus other tree
      dsimp only
      rw [report, notices]
      exact ⟨rfl, rfl⟩

/-- The workshop with both containers and a leaf shown in other ways. -/
def reopened : Tree :=
  [.setMode 1 .leafsCollapsed, .setMode 2 .collapsed, .setMode 5 .expanded].foldl perform
    Snapshot.workshop

def workshopProject : Scan.Project :=
  ⟨Snapshot.workshop, 4, 4, 0, 4, 0, [], [], ["dir:a"]⟩

theorem run_ignores_view_state_workshop :
    Snapshot.workshop.Reachable ∧ SameShape Snapshot.workshop reopened ∧
    SameLinks Snapshot.workshop reopened ∧ reopened.missing = Snapshot.workshop.missing ∧
    reopened.mode root = Snapshot.workshop.mode root ∧
    (Granularity.packages.apply Snapshot.workshop).2 = 2 ∧
    (Granularity.packages.apply reopened).2 = 1 ∧
    Snapshot.ofTree (Granularity.packages.apply reopened).1 =
      (Snapshot.ofTree (Granularity.packages.apply Snapshot.workshop).1).dated
        (Granularity.packages.apply reopened).1.generation ∧
    (run "later" { workshopProject with tree := reopened } { cyclesOnly := true }).2 =
      (run "now" workshopProject { cyclesOnly := true }).2.map (·.stamped "later") := by
  have reached : Snapshot.workshop.Reachable := Reachable.empty.run _
  have same : SameGraph Snapshot.workshop reopened :=
    ((sameGraph_setMode (by decide) _).trans (sameGraph_setMode (by decide) _)).trans
      (sameGraph_setMode (by decide) _)
  have missing : reopened.missing = Snapshot.workshop.missing :=
    ((missing_setMode 5 _).trans (missing_setMode 2 _)).trans (missing_setMode 1 _)
  obtain ⟨pictures, reports⟩ := @run_ignores_view_state reopened workshopProject reached
    same.shape same.links missing same.root_mode
  exact ⟨reached, same.shape, same.links, missing, same.root_mode, by decide +kernel,
    by decide +kernel, (pictures .packages).2.2, (reports "now" "later" { cyclesOnly := true }).2⟩

end Analysis

end ClassCoupling
