import ClassCoupling.Proofs.Analysis.Cycles

/-!
# Reports on trees that look alike

The metrics, the view and the warnings of a report are read off what the tree shows, through
snapshots and views that do not ask for its generation.
-/

namespace ClassCoupling

open Tree

variable {t t' : Tree}

/-! ## Views -/

namespace View

/-- The view does to snapshots of the second tree what it does to those of the first. -/
def Carries (t t' : Tree) (view : View) : Prop :=
  ∀ s : Snapshot, ∀ later : Nat,
    ViewStack.attempt t' (s.dated later) view =
      (ViewStack.attempt t s view).map (·.dated later)

theorem carries_reachability (shape : SameShape t t') (fullName : String) (direction : Direction) :
    (reachability fullName direction).Carries t t' := by
  intro s later
  simp only [ViewStack.attempt, reachability, Snapshot.find_dated s later shape]
  cases s.find t fullName with
  | error misuse => rfl
  | ok place =>
    cases place with
    | none => rfl
    | some start => exact congrArg some (s.reachable_dated later start direction)

theorem carries_cyclesOnly (excuses : Excuse.coversArc t' = Excuse.coversArc t) :
    cyclesOnly.Carries t t' := by
  intro s later
  simp only [ViewStack.attempt, cyclesOnly, Snapshot.requireNumberedEntries_dated,
    Snapshot.unexcusedCycles_dated s later excuses]
  cases s.requireNumberedEntries with
  | error misuse => rfl
  | ok _ => rfl

end View

theorem ViewStack.applyFrom_dated {views : List View} (carries : ∀ view ∈ views, view.Carries t t')
    (s : Snapshot) (later : Nat) :
    applyFrom t' views (s.dated later) =
      ((applyFrom t views s).1, (applyFrom t views s).2.dated later) := by
  induction views generalizing s with
  | nil => rfl
  | cons view views ih =>
    rw [List.forall_mem_cons] at carries
    unfold applyFrom
    rw [carries.1]
    cases attempt t s view with
    | none => exact ih carries.2 s
    | some narrowed =>
      simp only [Option.map_some]
      rw [ih carries.2 narrowed]

/-! ## Reports -/

namespace Analysis

variable {request : Request}

theorem requestedViews_dated (shape : SameShape t t') (s : Snapshot) (later : Nat) :
    requestedViews t' (s.dated later) request = requestedViews t s request := by
  unfold requestedViews
  cases request.start with
  | none => rfl
  | some start =>
    obtain ⟨fullName, direction⟩ := start
    have fits : (View.reachability fullName direction).applicable t' (s.dated later) =
        (View.reachability fullName direction).applicable t s := by
      simp only [View.reachability, Snapshot.find_dated s later shape]
      rfl
    dsimp only
    rw [fits]

/-- Only the view of the cycles asks for excuses. -/
theorem carries_requestedViews (shape : SameShape t t')
    (excuses : request.cyclesOnly = true → Excuse.coversArc t' = Excuse.coversArc t) (s : Snapshot) :
    ∀ view ∈ (requestedViews t s request).2.views, view.Carries t t' := by
  intro view asked
  rw [views_requestedViews, List.mem_append] at asked
  rcases asked with starting | cycles
  · unfold startingViews at starting
    split at starting
    · cases starting
    next fullName direction _ =>
      split at starting
      · rw [List.mem_singleton.mp starting]
        exact View.carries_reachability shape fullName direction
      · cases starting
  · split at cycles
    next cyclesOnly =>
      rw [List.mem_singleton.mp cycles]
      exact View.carries_cyclesOnly (excuses cyclesOnly)
    next => cases cycles

theorem levelMetrics_eq (alike : Alike t t') (tree : t.Contained) :
    levelMetrics t' = levelMetrics t := by
  funext focus granularity
  have measured : measured t' focus granularity =
      (measured t focus granularity).dated t'.generation := by
    cases granularity with
    | archives => exact alike.ofTree tree
    | classes | packages =>
      simp only [Analysis.measured, alike.walkVisible, alike.hasOwnContent, alike.shape.fullName,
        alike.ofNodes tree]
  have offender : offender t' = offender t := by
    funext s c index
    simp only [Analysis.offender, alike.shape.fullName]
  unfold levelMetrics
  rw [measured, offender]
  dsimp only
  rw [Snapshot.coupling_dated]
  rfl

theorem measureAll_keeps (tree : t.Contained) (focus : UnitFilter)
    (granularities : List Granularity) :
    SameGraph t (measureAll focus t granularities).1 ∧
      (measureAll focus t granularities).1.missing = t.missing := by
  induction granularities generalizing t with
  | nil => exact ⟨.refl t, rfl⟩
  | cons granularity granularities ih =>
    have graph : SameGraph t (granularity.apply t).1 := Granularity.sameGraph_apply tree
    obtain ⟨kept, missing⟩ := ih (tree.of_sameShape graph.shape)
    exact ⟨graph.trans kept, missing.trans (Granularity.missing_apply tree)⟩

/-- Each granularity makes the trees alike, whatever the ones before left behind. -/
theorem levels_measureAll (same : SameGraph t t') (tree : t.Contained) (focus : UnitFilter)
    (granularities : List Granularity) :
    (measureAll focus t' granularities).2 = (measureAll focus t granularities).2 := by
  induction granularities generalizing t t' with
  | nil => rfl
  | cons granularity granularities ih =>
    have below : (granularity.apply t).1.Contained :=
      tree.of_sameShape (Granularity.sameShape_apply tree)
    have alike : Alike (granularity.apply t).1 (granularity.apply t').1 :=
      Granularity.alike_apply tree same
    unfold measureAll
    dsimp only
    rw [ih (alike.sameGraph below) below, levelMetrics_eq alike below]

theorem requestedViews_eq (alike : Alike t t') (tree : t.Contained) :
    requestedViews t' (.ofTree t') request = requestedViews t (.ofTree t) request := by
  rw [alike.ofTree tree]
  exact requestedViews_dated alike.shape _ _

theorem apply_requestedViews_eq (request : Request) (alike : Alike t t') (tree : t.Contained)
    (excuses : request.cyclesOnly = true → Excuse.coversArc t' = Excuse.coversArc t) :
    (requestedViews t' (.ofTree t') request).2.apply t' (.ofTree t') =
      (((requestedViews t (.ofTree t) request).2.apply t (.ofTree t)).1,
        ((requestedViews t (.ofTree t) request).2.apply t (.ofTree t)).2.dated t'.generation) := by
  have carries := carries_requestedViews alike.shape excuses (.ofTree t)
  rw [requestedViews_eq alike tree, alike.ofTree tree]
  unfold ViewStack.apply
  rw [Snapshot.restrict_dated, ViewStack.applyFrom_dated carries]
  rfl

theorem nodeSummaries_eq (shape : SameShape t t') (s : Snapshot) (later : Nat) :
    nodeSummaries t' (s.dated later) = nodeSummaries t s := by
  simp only [nodeSummaries, shape.fullName, Snapshot.dated]

theorem cycleSummaries_eq (alike : Alike t t') (excuses : Excuse.coversArc t' = Excuse.coversArc t)
    (s : Snapshot) (later : Nat) : cycleSummaries t' (s.dated later) = cycleSummaries t s := by
  have cycleSummary : cycleSummary t' = cycleSummary t := by
    funext members
    simp only [Analysis.cycleSummary, alike.shape.fullName, arcSummary_eq alike]
  simp only [cycleSummaries, Snapshot.unexcusedCycles_dated s later excuses, Snapshot.cycles_dated,
    cycleSummary]

theorem missingDependencies_eq (shape : SameShape t t') (missing : t'.missing = t.missing) :
    missingDependencies t' = missingDependencies t := by
  funext focus
  simp only [missingDependencies, shape.walkAll, shape.isLeaf, shape.fullName, shape.displayName,
    missing]

/-- The tree a report is read off. -/
def reportedTree (request : Request) (focus : UnitFilter) (t : Tree) : Tree :=
  (request.granularity.apply (measureAll focus t Granularity.all).1).1

theorem reportedTree_keeps (request : Request) (focus : UnitFilter) (tree : t.Contained) :
    SameGraph t (reportedTree request focus t) ∧
      (reportedTree request focus t).missing = t.missing := by
  obtain ⟨measured, missing⟩ := measureAll_keeps tree focus Granularity.all
  have tree' := tree.of_sameShape measured.shape
  exact ⟨measured.trans (Granularity.sameGraph_apply tree'),
    (Granularity.missing_apply tree').trans missing⟩

theorem alike_reportedTree (request : Request) (focus : UnitFilter) (same : SameGraph t t')
    (tree : t.Contained) :
    Alike (reportedTree request focus t) (reportedTree request focus t') := by
  have measured := (measureAll_keeps tree focus Granularity.all).1
  have measured' := (measureAll_keeps (tree.of_sameShape same.shape) focus Granularity.all).1
  exact Granularity.alike_apply (tree.of_sameShape measured.shape)
    (measured.symm.trans (same.trans measured'))

theorem coversArc_reportedTree (request : Request) (focus : UnitFilter) (same : SameGraph t t')
    (tree : t.Contained) (marks : Excuse.SameMarks t t') :
    Excuse.coversArc (reportedTree request focus t') =
      Excuse.coversArc (reportedTree request focus t) := by
  have kept : ∀ {t : Tree}, t.Contained → Excuse.SameMarks t (reportedTree request focus t) := by
    intro t tree
    obtain ⟨graph, missing⟩ := reportedTree_keeps request focus tree
    exact .of_missing graph.shape graph.links missing
  have marked := (kept tree).symm.trans (marks.trans (kept (tree.of_sameShape same.shape)))
  exact marked.coversArc (alike_reportedTree request focus same tree)

section Reports

variable {project project' : Scan.Project} (timestamp later : String) (request : Request)
  (focus : UnitFilter) (same : SameGraph project.tree project'.tree)
  (tree : project.tree.Contained)
include same tree

theorem metrics_reportOn :
    (reportOn later project' request focus).2.metrics =
      (reportOn timestamp project request focus).2.metrics :=
  levels_measureAll same tree focus Granularity.all

theorem notices_reportOn :
    (reportOn later project' request focus).1 = (reportOn timestamp project request focus).1 := by
  have tree' := tree.of_sameShape (reportedTree_keeps request focus tree).1.shape
  exact congrArg (·.1) (requestedViews_eq (alike_reportedTree request focus same tree) tree')

theorem view_reportOn
    (marks : request.cyclesOnly = true → Excuse.SameMarks project.tree project'.tree) :
    (reportOn later project' request focus).2.view =
      (reportOn timestamp project request focus).2.view := by
  have alike := alike_reportedTree request focus same tree
  have tree' := tree.of_sameShape (reportedTree_keeps request focus tree).1.shape
  have shown := apply_requestedViews_eq request alike tree' fun asked =>
    coversArc_reportedTree request focus same tree (marks asked)
  unfold reportOn
  dsimp only [reportedTree] at alike shown ⊢
  rw [shown, nodeSummaries_eq alike.shape]
  rfl

theorem cycles_reportOn (marks : Excuse.SameMarks project.tree project'.tree) :
    (reportOn later project' request focus).2.cycles =
      (reportOn timestamp project request focus).2.cycles := by
  have alike := alike_reportedTree request focus same tree
  have tree' := tree.of_sameShape (reportedTree_keeps request focus tree).1.shape
  have excuses := coversArc_reportedTree request focus same tree marks
  have shown := apply_requestedViews_eq request alike tree' fun _ => excuses
  unfold reportOn
  dsimp only [reportedTree] at shown ⊢
  rw [shown]
  exact cycleSummaries_eq alike excuses _ _

theorem missingDependencies_reportOn (missing : project'.tree.missing = project.tree.missing) :
    (reportOn later project' request focus).2.missingDependencies =
      (reportOn timestamp project request focus).2.missingDependencies := by
  have alike := alike_reportedTree request focus same tree
  have before := (reportedTree_keeps request focus tree).2
  have after := (reportedTree_keeps request focus (tree.of_sameShape same.shape)).2
  exact congrFun (missingDependencies_eq alike.shape (after.trans (missing.trans before.symm))) focus

end Reports

end Analysis

end ClassCoupling
