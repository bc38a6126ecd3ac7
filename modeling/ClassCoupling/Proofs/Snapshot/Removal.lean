import ClassCoupling.Proofs.Snapshot.Editing
import Mathlib.Data.List.InsertIdx

/-!
# Taking entries out and building the rest anew

Entries may be taken out one after the other, each by its place among those that are left, or all at
once by building a snapshot of the others. Either way the same entries are left in the same order
with the same arcs; only the predecessors may stand in another order.
-/

namespace ClassCoupling.Snapshot

variable {t : Tree} {s copy : Snapshot} {u v x : NodeId} {places : List Nat}

/-! ## One entry after the other -/

/-- Takes out the entry at each place in turn, a place being one of those left by then. -/
def removeNodes (s : Snapshot) (places : List Nat) : Except Misuse Snapshot :=
  places.foldlM (fun s place => (s.removeNode place).map (·.1)) s

/-- Each place lies among as many entries as are left when its turn comes. -/
def InRange : Nat → List Nat → Prop
  | _, [] => True
  | size, place :: places => place < size ∧ InRange (size - 1) places

theorem without_without (first second : List NodeId) :
    (s.without first).without second = s.without (first ++ second) := by
  simp [without, List.filter_map, List.filter_filter, Function.comp_def, Bool.and_comm]

theorem Consistent.nodes_without_eq_eraseIdx (consistent : s.Consistent) {place : Nat}
    {removed : Entry} (found : s.entries[place]? = some removed) :
    (s.without [removed.node]).nodes = s.nodes.eraseIdx place := by
  rw [nodes, nodes, List.eraseIdx_map, consistent.eraseIdx_eq_filter found]
  simp [Snapshot.without, Function.comp_def]

/-- However many entries are taken out, what is left is what the first snapshot is without them. -/
theorem Consistent.exists_removeNodes (consistent : s.Consistent) (inRange : InRange s.size places) :
    ∃ left removed, s.removeNodes places = .ok left ∧
      left.renumber = (s.without removed).renumber ∧
      left.nodes = places.foldl List.eraseIdx s.nodes := by
  induction places generalizing s with
  | nil => exact ⟨s, [], rfl, by simp [Snapshot.without, Snapshot.renumber], rfl⟩
  | cons place places ih =>
    obtain ⟨inside, inRange⟩ := inRange
    have found : s.entries[place]? = some s.entries[place] := List.getElem?_eq_getElem inside
    have nodes := consistent.nodes_without_eq_eraseIdx found
    have size : (s.without [s.entries[place].node]).size = s.size - 1 := by
      have length := congrArg List.length nodes
      rw [List.length_eraseIdx_of_lt (by simpa [Snapshot.nodes] using inside)] at length
      simpa [Snapshot.nodes] using length
    obtain ⟨left, removed, run, same, order⟩ :=
      ih (consistent.without [s.entries[place].node]) (size ▸ inRange)
    refine ⟨left, s.entries[place].node :: removed, ?_, ?_, ?_⟩
    · rw [removeNodes, List.foldlM_cons, consistent.removeNode_eq found]
      exact run
    · rw [same, without_without]
      rfl
    · rw [order, nodes]
      rfl

/-! ## All at once -/

theorem mapM_entryAt_findIdxs (p : Entry → Bool) :
    (s.entries.findIdxs p).mapM s.entryAt = .ok (s.entries.filter p) := by
  have rest : ∀ front back, s.entries = front ++ back →
      (back.findIdxs p front.length).mapM s.entryAt = .ok (back.filter p) := by
    intro front back whole
    induction back generalizing front with
    | nil => rfl
    | cons e back ih =>
      have later := ih (front ++ [e]) (by simp [whole])
      rw [List.length_append, List.length_singleton] at later
      have here : s.entryAt front.length = .ok e := by
        rw [entryAt_eq_ok_iff, whole]
        simp
      rw [List.findIdxs_cons]
      by_cases chosen : p e = true
      · rw [if_pos chosen, List.mapM_cons, here, later, List.filter_cons_of_pos chosen]
        rfl
      · rw [if_neg chosen, later, List.filter_cons_of_neg chosen]
  exact rest [] s.entries rfl

theorem induced_findIdxs (p : NodeId → Bool) :
    s.induced (s.nodes.findIdxs p) = .ok (s.restrict (s.entries.filter fun e => p e.node)) := by
  rw [induced, nodes, List.findIdxs_map, mapM_entryAt_findIdxs]
  rfl

/-- Only the arcs that stay among the nodes matter. -/
theorem build_filter {generation : Nat} {nodes : List (NodeId × Nat)} {arcs : List (NodeId × NodeId)}
    {p : NodeId × NodeId → Bool}
    (inner : ∀ arc, arc.1 ∈ nodes.map (·.1) → arc.2 ∈ nodes.map (·.1) → p arc = true) :
    build generation nodes (arcs.filter p) = build generation nodes arcs := by
  have kept : (arcs.filter p).filter (fun arc =>
      arc.1 ∈ (nodes.map (·.1)).eraseDups ∧ arc.2 ∈ (nodes.map (·.1)).eraseDups) =
      arcs.filter fun arc =>
        arc.1 ∈ (nodes.map (·.1)).eraseDups ∧ arc.2 ∈ (nodes.map (·.1)).eraseDups := by
    rw [List.filter_filter]
    apply List.filter_congr
    intro arc _
    simp only [List.mem_eraseDups, Bool.and_eq_left_iff_imp, decide_eq_true_eq]
    exact fun ends => inner arc ends.1 ends.2
  apply build_congr
  rw [keptArcs, kept, keptArcs]

/-- Building the rest anew is copying what is left when the others are taken out. -/
theorem restrict_filter_eq (removed : List NodeId) :
    s.restrict (s.entries.filter fun e => e.node ∉ removed) =
      (s.without removed).restrict (s.without removed).entries := by
  have outside : ∀ x ∈ (unitCounts (s.without removed).entries).map (·.1), x ∉ removed := by
    intro x listed
    rw [unitCounts, List.map_map] at listed
    change x ∈ (s.without removed).nodes at listed
    rw [nodes_without] at listed
    simpa using (List.mem_filter.mp listed).2
  rw [restrict_eq_build, restrict_eq_build, nodeArcs_without, build_filter]
  · simp [unitCounts, without, Function.comp_def]
  · intro arc source target
    exact decide_eq_true ⟨outside _ source, outside _ target⟩

theorem IsCopyOf.renumber (copied : copy.IsCopyOf s) : s.renumber.IsCopyOf copy where
  generation := copied.generation.symm
  numbered := rfl
  size := by
    rw [copied.size]
    exact List.length_mapIdx
  entry i e found := by
    have inside : i < s.size := copied.size ▸ (List.getElem?_eq_some_iff.mp found).1
    have old : s.entries[i]? = some s.entries[i] := List.getElem?_eq_getElem inside
    obtain ⟨f, here, node, -, units, successors, predecessors⟩ := copied.entry i _ old
    obtain rfl : e = f := Option.some.inj (found.symm.trans here)
    refine ⟨{ s.entries[i] with index := i }, ?_, node.symm, rfl, units.symm, successors.symm,
      predecessors.symm⟩
    simp [Snapshot.renumber, old]

/-! ## Both ways agree -/

/-- Taking out entries and renumbering the rest gives a copy of the snapshot that is built of the
rest, and exactly the arcs between what is left. -/
theorem removal_agrees_with_induced (derived : Derived t s) (inRange : InRange s.size places) :
    ∃ left kept, s.removeNodes places = .ok left ∧
      left.nodes = places.foldl List.eraseIdx s.nodes ∧
      s.induced (s.nodes.findIdxs (· ∈ left.nodes)) = .ok kept ∧ left.renumber.IsCopyOf kept ∧
      ∀ u v, left.renumber.Arc u v ↔ s.Arc u v ∧ u ∈ left.nodes ∧ v ∈ left.nodes := by
  have consistent := derived.spec.1
  obtain ⟨left, removed, run, same, order⟩ := consistent.exists_removeNodes inRange
  have nodes : left.nodes = s.nodes.filter (· ∉ removed) := by
    rw [← nodes_renumber, same, nodes_renumber, nodes_without]
  have stays : ∀ x ∈ s.nodes, x ∈ left.nodes ↔ x ∉ removed := by
    intro x listed
    simp [nodes, listed]
  have chosen : s.entries.filter (fun e => e.node ∈ left.nodes) =
      s.entries.filter fun e => e.node ∉ removed := by
    apply List.filter_congr
    intro e listed
    rw [decide_eq_decide]
    exact stays e.node (mem_nodes.mpr ⟨e, listed, rfl⟩)
  refine ⟨left, _, run, order, induced_findIdxs _, ?_, ?_⟩
  · rw [chosen, restrict_filter_eq, same]
    exact (consistent.without removed).restrict_isCopyOf.renumber
  · intro u v
    rw [same, Arc, nodeArcs_renumber, nodeArcs_without, List.mem_filter]
    simp only [decide_eq_true_eq]
    refine and_congr_right fun arc => ?_
    rw [stays u (source_mem arc), stays v (consistent.target_mem arc)]

/-- Four units, one of which uses itself. -/
def knot : Tree :=
  [.createLeaf Tree.root "a", .createLeaf Tree.root "b", .createLeaf Tree.root "c",
    .createLeaf Tree.root "d", .link 2 2, .link 4 2, .link 4 1, .link 3 1].foldl Tree.perform .empty

/-- The first entry is taken out, and then the second of those that are left. -/
theorem removal_agrees_with_induced_knot :
    Derived knot (ofTree knot) ∧ InRange (ofTree knot).size [0, 1] ∧
    ∃ left kept, (ofTree knot).removeNodes [0, 1] = .ok left ∧ left.nodes = [2, 4] ∧
      (ofTree knot).induced [1, 3] = .ok kept ∧ left.renumber.IsCopyOf kept ∧
      left.renumber.Arc 2 2 ∧ left.renumber.Arc 4 2 ∧ ¬ left.renumber.Arc 4 1 := by
  have nodes : (ofTree knot).nodes = [1, 2, 3, 4] := by with_unfolding_all rfl
  have inRange : InRange (ofTree knot).size [0, 1] := by
    have size : (ofTree knot).size = 4 := by
      simpa [Snapshot.nodes] using congrArg List.length nodes
    simp [InRange, size]
  have arcs : (ofTree knot).nodeArcs = [(2, 2), (3, 1), (4, 2), (4, 1)] := by
    with_unfolding_all rfl
  obtain ⟨left, kept, run, order, built, copy, arc_iff⟩ :=
    removal_agrees_with_induced (s := ofTree knot) .ofTree inRange
  rw [nodes] at order
  have left_nodes : left.nodes = [2, 4] := order
  rw [left_nodes, nodes] at built
  refine ⟨.ofTree, inRange, left, kept, run, left_nodes, built, copy, ?_, ?_, ?_⟩
  · exact (arc_iff 2 2).mpr (by simp [Arc, arcs, left_nodes])
  · exact (arc_iff 4 2).mpr (by simp [Arc, arcs, left_nodes])
  · rw [arc_iff]
    simp [left_nodes]

end ClassCoupling.Snapshot
