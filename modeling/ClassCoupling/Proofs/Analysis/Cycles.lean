import ClassCoupling.Analysis
import ClassCoupling.Proofs.Snapshot.Likeness
import ClassCoupling.Proofs.View.Granularity

/-!
# The cycles of a report

The report is made of the snapshot at the requested granularity, seen from the requested node. Its
cycles are those of the unexcused arcs of that snapshot, whether or not only cycles are shown.
-/

namespace ClassCoupling

open Relation Tree

namespace Analysis

variable {t : Tree} {s : Snapshot} {request : Request}

/-! ## What is shown -/

/-- The snapshot as seen from the requested node, if there is one and the snapshot has it. -/
def narrow (t : Tree) (request : Request) (s : Snapshot) : Snapshot :=
  match request.start with
  | none => s
  | some (fullName, direction) =>
    match s.find t fullName with
    | .ok (some start) => s.reachable start direction
    | _ => s

theorem narrow_cases (t : Tree) (request : Request) (s : Snapshot) :
    narrow t request s = s ∨ ∃ entries, narrow t request s = s.restrict entries := by
  unfold narrow
  split
  · exact .inl rfl
  · split
    · exact .inr ⟨_, rfl⟩
    · exact .inl rfl

theorem indexed_narrow (t : Tree) (request : Request) (indexed : s.Indexed) :
    (narrow t request s).Indexed := by
  rcases narrow_cases t request s with same | ⟨entries, restricted⟩
  · rw [same]
    exact indexed
  · rw [restricted]
    exact Snapshot.indexed_restrict s entries

theorem attempt_cyclesOnly (numbered : s.numbered = true) :
    ViewStack.attempt t s View.cyclesOnly = some (s.unexcusedCycles t) := by
  simp [ViewStack.attempt, View.cyclesOnly, Snapshot.requireNumberedEntries_eq numbered,
    Except.toOption]

theorem reachability_name_ne (fullName : String) (direction : Direction) :
    View.cyclesOnly.name ≠ (View.reachability fullName direction).name := by
  intro same
  have chars := congrArg (·.toList.head?) same
  cases direction <;> simp [View.cyclesOnly, View.reachability, String.toList_append] at chars

theorem attempt_reachability {fullName : String} {direction : Direction} {start : Fin s.size}
    (found : s.find t fullName = .ok (some start)) :
    ViewStack.attempt t s (View.reachability fullName direction) =
      some (s.reachable start direction) := by
  simp [ViewStack.attempt, View.reachability, found, Except.map, Except.toOption]

/-- The view from the requested node, if it fits. -/
def startingViews (t : Tree) (s : Snapshot) (request : Request) : List View :=
  match request.start with
  | none => []
  | some (fullName, direction) =>
    match s.find t fullName with
    | .ok (some _) => [View.reachability fullName direction]
    | _ => []

theorem views_requestedViews :
    (requestedViews t s request).2.views =
      startingViews t s request ++ if request.cyclesOnly then [View.cyclesOnly] else [] := by
  unfold requestedViews startingViews
  cases request.start with
  | none => cases request.cyclesOnly <;> rfl
  | some start =>
    obtain ⟨fullName, direction⟩ := start
    have other := reachability_name_ne fullName direction
    cases found : s.find t fullName with
    | error misuse =>
      cases request.cyclesOnly <;> simp [View.reachability, found, Except.map] <;> rfl
    | ok place =>
      cases place with
      | none => cases request.cyclesOnly <;> simp [View.reachability, found, Except.map] <;> rfl
      | some place =>
        have fits : (View.reachability fullName direction).applicable t s = .ok true := by
          simp [View.reachability, found, Except.map]
        cases request.cyclesOnly <;>
          simp [found, fits, ViewStack.push, ViewStack.empty, ViewStack.names, other]

theorem applyFrom_startingViews (t : Tree) (s : Snapshot) (request : Request) (views : List View) :
    (ViewStack.applyFrom t (startingViews t s request ++ views) s).2 =
      (ViewStack.applyFrom t views (narrow t request s)).2 := by
  unfold startingViews narrow
  split
  · rfl
  · split
    next start found =>
      simp only [List.singleton_append, ViewStack.applyFrom, attempt_reachability found]
    next => rfl

/-- The views asked for are applied to the snapshot itself, one after the other. -/
theorem apply_requestedViews (copy : s.restrict s.entries = s) (indexed : s.Indexed) :
    ((requestedViews t s request).2.apply t s).2 =
      if request.cyclesOnly then (narrow t request s).unexcusedCycles t
      else narrow t request s := by
  have narrowed : (narrow t request s).Indexed := indexed_narrow t request indexed
  unfold ViewStack.apply
  dsimp only
  rw [copy, views_requestedViews, applyFrom_startingViews]
  cases request.cyclesOnly with
  | false => rfl
  | true => simp [ViewStack.applyFrom, attempt_cyclesOnly narrowed.numbered]

theorem narrow_dated {t' : Tree} (shape : SameShape t t') (request : Request) (s : Snapshot)
    (later : Nat) : narrow t' request (s.dated later) = (narrow t request s).dated later := by
  unfold narrow
  cases request.start with
  | none => rfl
  | some start =>
    dsimp only
    rw [Snapshot.find_dated s later shape]
    cases s.find t start.1 with
    | error misuse => rfl
    | ok place =>
      cases place with
      | none => rfl
      | some place => exact s.reachable_dated later place start.2

/-- The arcs of the shown snapshot that no rule excuses. -/
def Unexcused (t : Tree) (request : Request) : NodeId → NodeId → Prop :=
  (narrow t request (.ofTree t)).Unexcused t

theorem unexcused_of_keepsMarks {t t' : Tree} {u v : NodeId} (alike : Alike t t')
    (tree : t.Contained) (marks : Excuse.KeepsMarks t' t) (arc : Unexcused t request u v) :
    Unexcused t' request u v := by
  unfold Unexcused at arc ⊢
  rw [alike.ofTree tree, narrow_dated alike.shape]
  refine ⟨arc.1, ?_⟩
  rw [← Bool.not_eq_true]
  intro excused
  have before := marks.coversArc alike.symm excused
  rw [arc.2] at before
  cases before

theorem unexcused_eq {t t' : Tree} (alike : Alike t t') (tree : t.Contained)
    (marks : Excuse.SameMarks t t') : Unexcused t' request = Unexcused t request := by
  funext u v
  apply propext
  constructor
  · exact unexcused_of_keepsMarks alike.symm (tree.of_sameShape alike.shape) marks.kept
  · exact unexcused_of_keepsMarks alike tree marks.no_others

/-! ## The reported cycles -/

/-- A cycle as it is reported. -/
def cycleOf (t : Tree) (cycle : List NodeId × List (NodeId × NodeId)) : Report.Cycle where
  nodes := cycle.1.map t.fullName
  arcs := cycle.2.map fun arc => arcSummary t arc.1 arc.2

theorem arcSummary_eq {t t' : Tree} (alike : Alike t t') : arcSummary t' = arcSummary t := by
  funext source target
  simp only [arcSummary, alike.shape.fullName, alike.explain]

theorem cycleOf_eq {t t' : Tree} (alike : Alike t t') : cycleOf t' = cycleOf t := by
  funext cycle
  simp only [cycleOf, alike.shape.fullName, arcSummary_eq alike]

theorem cycleSummary_eq (t : Tree) (members : List Entry) :
    cycleSummary t members = cycleOf t (members.map (·.node), Snapshot.cycleArcs members) := by
  simp [cycleSummary, cycleOf, Snapshot.cycleArcs, List.map_flatMap, Function.comp_def]

/-- Whether or not the shown snapshot was cut down to its cycles. -/
theorem exists_cycles_shown (t : Tree) (request : Request) :
    ∃ cycles, DescribesCycles (Unexcused t request) cycles ∧
      cycleSummaries t
          (if request.cyclesOnly then (narrow t request (.ofTree t)).unexcusedCycles t
            else narrow t request (.ofTree t)) =
        cycles.map (cycleOf t) := by
  have indexed := indexed_narrow t request (Snapshot.indexed_ofTree t)
  have summaries : ∀ s : Snapshot, cycleSummaries t s =
      ((s.unexcusedCycles t).cycles.map fun c =>
        (c.map (·.node), Snapshot.cycleArcs c)).map (cycleOf t) := by
    intro s
    simp only [cycleSummaries, List.map_map]
    exact List.map_congr_left fun members _ => cycleSummary_eq t members
  rw [summaries]
  cases request.cyclesOnly with
  | false => exact ⟨_, indexed.describesCycles_unexcused, rfl⟩
  | true => exact ⟨_, indexed.describesCycles_unexcused_twice, rfl⟩

/-- The tree at the requested granularity. -/
def shownTree (project : Scan.Project) (request : Request) : Tree :=
  (request.granularity.apply project.tree).1

theorem apply_measureAll (reached : t.Reachable) (focus : UnitFilter)
    (granularities : List Granularity) (last : Granularity) :
    (last.apply (measureAll focus t granularities).1).1.nodes = (last.apply t).1.nodes := by
  induction granularities generalizing t with
  | nil => rfl
  | cons granularity granularities ih =>
    unfold measureAll
    dsimp only
    rw [ih (Granularity.reachable_apply reached)]
    exact Granularity.nodes_apply_apply reached.wellFormed.toContained granularity last

variable {timestamp : String} {project : Scan.Project} {report : Report}

theorem exists_focus (accepted : (run timestamp project request).2 = .ok report) :
    ∃ focus : UnitFilter, UnitFilter.make [] [] request.focus = .ok focus ∧
      report = (reportOn timestamp project request focus).2 := by
  unfold run at accepted
  split at accepted
  · cases accepted
  next focus made =>
    cases accepted
    exact ⟨focus, made, rfl⟩

theorem exists_cycles (reached : project.tree.Reachable)
    (accepted : (run timestamp project request).2 = .ok report) :
    ∃ cycles, DescribesCycles (Unexcused (shownTree project request) request) cycles ∧
      report.cycles = cycles.map (cycleOf (shownTree project request)) := by
  obtain ⟨focus, -, rfl⟩ := exists_focus accepted
  have same := apply_measureAll reached focus Granularity.all request.granularity
  obtain ⟨cycles, describes, summaries⟩ := exists_cycles_shown
    (request.granularity.apply (measureAll focus project.tree Granularity.all).1).1 request
  have shown : (shownTree project request).Contained :=
    (Granularity.reachable_apply reached).wellFormed.toContained
  have alike := Alike.of_nodes_eq same
  rw [unexcused_eq alike shown (.of_nodes_eq same)] at describes
  refine ⟨cycles, describes, ?_⟩
  unfold reportOn
  dsimp only
  rw [apply_requestedViews (Snapshot.restrict_ofTree _) (Snapshot.indexed_ofTree _)]
  rw [summaries, cycleOf_eq alike]
  rfl

/-- An arc that is shown has a reason. -/
theorem reasons_ne_nil {u v : NodeId} (reached : t.Reachable) (arc : Unexcused t request u v) :
    t.reasons u v ≠ [] := by
  have listed : (Snapshot.ofTree t).Arc u v := by
    rcases narrow_cases t request (.ofTree t) with same | ⟨entries, restricted⟩
    · rw [← same]
      exact arc.1
    · have inside := arc.1
      rw [restricted] at inside
      exact (Snapshot.mem_nodeArcs_restrict.mp inside).1
  have source := Snapshot.source_mem listed
  have target := (Snapshot.indexed_ofTree t).target_mem listed
  exact ((Snapshot.arc_iff reached.wellFormed source target).mp listed).1

/-! ## Showing only the cycles -/

theorem run_eq_error {failure : Failure}
    (rejected : (run timestamp project request).2 = .error failure)
    (cyclesOnly : Bool) :
    (run timestamp project { request with cyclesOnly }).2 = .error failure := by
  unfold run at rejected ⊢
  dsimp only
  split at rejected
  · exact rejected
  · cases rejected

/-- The same cycles up to order: the same nodes, and the same arcs with the same reasons. -/
def SameCycles (cycles others : List Report.Cycle) : Prop :=
  (∀ c ∈ cycles, ∃ d ∈ others, c.nodes.Perm d.nodes ∧ c.arcs.Perm d.arcs) ∧
    ∀ d ∈ others, ∃ c ∈ cycles, c.nodes.Perm d.nodes ∧ c.arcs.Perm d.arcs

theorem SameCycles.of_describes {r : NodeId → NodeId → Prop}
    {cycles others : List (List NodeId × List (NodeId × NodeId))}
    (describes : DescribesCycles r cycles) (same : DescribesCycles r others) :
    SameCycles (cycles.map (cycleOf t)) (others.map (cycleOf t)) := by
  constructor
  · intro _ reported
    obtain ⟨c, mem, rfl⟩ := List.mem_map.mp reported
    obtain ⟨d, other, nodes, arcs⟩ := describes.exists_perm same c mem
    exact ⟨_, List.mem_map_of_mem other, nodes.map _, arcs.map _⟩
  · intro _ reported
    obtain ⟨d, mem, rfl⟩ := List.mem_map.mp reported
    obtain ⟨c, other, nodes, arcs⟩ := same.exists_perm describes d mem
    exact ⟨_, List.mem_map_of_mem other, nodes.symm.map _, arcs.symm.map _⟩

theorem SameCycles.hasCycles_eq {other : Report} (same : SameCycles report.cycles other.cycles) :
    other.hasCycles = report.hasCycles := by
  unfold Report.hasCycles
  cases cycles : report.cycles with
  | nil =>
    cases others : other.cycles with
    | nil => rfl
    | cons d rest =>
      obtain ⟨c, mem, -⟩ := same.2 d (by rw [others]; exact List.mem_cons_self)
      rw [cycles] at mem
      cases mem
  | cons c rest =>
    obtain ⟨d, mem, -⟩ := same.1 c (by rw [cycles]; exact List.mem_cons_self)
    cases others : other.cycles with
    | nil =>
      rw [others] at mem
      cases mem
    | cons d rest => rfl

theorem exists_same_cycles (reached : project.tree.Reachable)
    (accepted : (run timestamp project request).2 = .ok report) (cyclesOnly : Bool) :
    ∃ other, (run timestamp project { request with cyclesOnly }).2 = .ok other ∧
      SameCycles report.cycles other.cycles := by
  obtain ⟨focus, made, -⟩ := exists_focus accepted
  have again : (run timestamp project { request with cyclesOnly }).2 =
      .ok (reportOn timestamp project { request with cyclesOnly } focus).2 := by
    simp only [run, made]
  obtain ⟨cycles, describes, reported⟩ := exists_cycles reached accepted
  obtain ⟨others, same, repeated⟩ := exists_cycles reached again
  refine ⟨_, again, ?_⟩
  rw [reported, repeated]
  exact .of_describes describes same

end Analysis

end ClassCoupling
