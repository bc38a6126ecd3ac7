import ClassCoupling.Proofs.Snapshot.Traversal
import ClassCoupling.Proofs.View.CyclesOnly
import ClassCoupling.View.Reachability

/-!
# What the view from one node keeps

The view from a node keeps what can be reached from it, with all arcs among what it keeps. What is
reached is closed under the arcs that are followed: none of these leads out of the view, and a second
look from the same node reaches the same nodes again.
-/

namespace ClassCoupling

open Relation

/-- Steps that are cut down to what can be reached from `a` still reach all of it. -/
theorem reflTransGen_within {α : Type} {r within : α → α → Prop} {a b : α}
    (steps : ∀ c d, within c d ↔ r c d ∧ ReflTransGen r a c) :
    ReflTransGen within a b ↔ ReflTransGen r a b := by
  constructor
  · intro walk
    exact ReflTransGen.mono (fun c d step => ((steps c d).mp step).1) _ _ walk
  · intro walk
    induction walk with
    | refl => exact .refl
    | tail walk step ih => exact ih.tail ((steps _ _).mpr ⟨step, walk⟩)

namespace Snapshot

variable {t : Tree} {s : Snapshot} {direction : Direction} {name : String} {u v x : NodeId}

/-! ## Following the arcs by node -/

theorem Consistent.ends_of_follows (consistent : s.Consistent)
    (step : direction.Follows s.nodeArcs u v) : u ∈ s.nodes ∧ v ∈ s.nodes := by
  cases direction with
  | forward => exact ⟨source_mem step, consistent.target_mem step⟩
  | backward => exact ⟨consistent.target_mem step, source_mem step⟩

theorem Indexed.follows_numberedArcs_iff (indexed : s.Indexed) {i j : Fin s.size} :
    direction.Follows s.numberedArcs i j ↔
      direction.Follows s.nodeArcs (s.nodeAt i) (s.nodeAt j) := by
  cases direction with
  | forward => exact mem_numberedArcs indexed
  | backward => exact mem_numberedArcs indexed

theorem Indexed.mem_breadthFirst_iff (indexed : s.Indexed) {start i : Fin s.size} :
    i ∈ (s.digraph direction).breadthFirst start ↔
      ReflTransGen (direction.Follows s.nodeArcs) (s.nodeAt start) (s.nodeAt i) := by
  rw [Digraph.mem_breadthFirst, Digraph.Reaches, indexed.digraph_arc_eq_follows]
  apply reflTransGen_iff_of_injective indexed.nodeAt_injective
  · intro i j
    exact indexed.follows_numberedArcs_iff
  · intro i x step
    exact exists_nodeAt (indexed.ends_of_follows step).2

/-! ## What is reached -/

section Reachable

variable (indexed : s.Indexed) {start : Fin s.size}
include indexed

theorem Indexed.mem_nodes_reachable_iff :
    x ∈ (s.reachable start direction).nodes ↔
      ReflTransGen (direction.Follows s.nodeArcs) (s.nodeAt start) x := by
  have listed : x ∈ (s.reachable start direction).nodes ↔
      ∃ i ∈ (s.digraph direction).breadthFirst start, s.nodeAt i = x := by
    rw [reachable, mem_nodes_restrict]
    simp [entriesOf, nodeAt]
  rw [listed]
  constructor
  · intro reached
    obtain ⟨i, reached, rfl⟩ := reached
    exact indexed.mem_breadthFirst_iff.mp reached
  · intro walk
    have inside : x ∈ s.nodes := by
      cases walk.cases_tail with
      | inl same => exact same ▸ mem_nodes.mpr ⟨_, entry_mem start, rfl⟩
      | inr last =>
        obtain ⟨_, -, step⟩ := last
        exact (indexed.ends_of_follows step).2
    obtain ⟨i, rfl⟩ := exists_nodeAt inside
    exact ⟨i, indexed.mem_breadthFirst_iff.mpr walk, rfl⟩

omit indexed in
theorem arc_reachable_iff :
    (s.reachable start direction).Arc u v ↔ s.Arc u v ∧
      u ∈ (s.reachable start direction).nodes ∧ v ∈ (s.reachable start direction).nodes := by
  rw [reachable, mem_nodes_restrict, mem_nodes_restrict]
  exact mem_nodeArcs_restrict

/-- A step from what is reached stays there, so only where it begins has to be asked. -/
theorem Indexed.follows_reachable_iff :
    direction.Follows (s.reachable start direction).nodeArcs u v ↔
      direction.Follows s.nodeArcs u v ∧ u ∈ (s.reachable start direction).nodes := by
  have closed : direction.Follows s.nodeArcs u v → u ∈ (s.reachable start direction).nodes →
      v ∈ (s.reachable start direction).nodes := by
    intro step reached
    rw [indexed.mem_nodes_reachable_iff] at reached ⊢
    exact reached.tail step
  cases direction with
  | forward =>
    exact arc_reachable_iff.trans
      ⟨fun arc => ⟨arc.1, arc.2.1⟩, fun arc => ⟨arc.1, arc.2, closed arc.1 arc.2⟩⟩
  | backward =>
    exact arc_reachable_iff.trans
      ⟨fun arc => ⟨arc.1, arc.2.2⟩, fun arc => ⟨arc.1, closed arc.1 arc.2, arc.2⟩⟩

/-- From the same node, as much is reached in what was kept. -/
theorem Indexed.sameSets_reachable_reachable {start' : Fin (s.reachable start direction).size}
    (same : (s.reachable start direction).nodeAt start' = s.nodeAt start) :
    (s.reachable start direction).SameSets
      ((s.reachable start direction).reachable start' direction) := by
  have kept : (s.reachable start direction).Indexed := indexed_restrict _ _
  have nodes : ∀ x, x ∈ (s.reachable start direction).nodes ↔
      x ∈ ((s.reachable start direction).reachable start' direction).nodes := by
    intro x
    rw [kept.mem_nodes_reachable_iff, same, indexed.mem_nodes_reachable_iff]
    refine (reflTransGen_within ?_).symm
    intro u v
    rw [indexed.follows_reachable_iff, indexed.mem_nodes_reachable_iff]
  refine ⟨nodes, ?_⟩
  intro u v
  rw [arc_reachable_iff (s := s.reachable start direction), ← nodes, ← nodes]
  constructor
  · intro arc
    exact ⟨arc, source_mem arc, kept.target_mem arc⟩
  · intro arc
    exact arc.1

end Reachable

theorem find_eq (numbered : s.numbered = true) (t : Tree) (name : String) :
    s.find t name = .ok ((t.findByName? name).bind s.place?) := by
  unfold find
  cases t.findByName? name with
  | none => rfl
  | some node => exact indexOf_eq numbered node

theorem Indexed.find_of_nodeAt (indexed : s.Indexed) {start : Fin s.size}
    (named : t.findByName? name = some (s.nodeAt start)) :
    s.find t name = .ok (some start) := by
  rw [find_eq indexed.numbered, named, Option.bind_some, indexed.place?_eq_some_iff.mpr rfl]

theorem Indexed.find_of_not_mem (indexed : s.Indexed)
    (unknown : ∀ x ∈ s.nodes, t.findByName? name ≠ some x) : s.find t name = .ok none := by
  rw [find_eq indexed.numbered, Except.ok.injEq, Option.bind_eq_none_iff]
  intro x named
  exact indexed.place?_eq_none_iff.mpr fun listed => unknown x listed named

end Snapshot

/-! ## The view -/

namespace View

open Snapshot

variable {origin t : Tree} {s : Snapshot} {name : String}

theorem reachability_of_find_some {start : Fin s.size} (found : s.find t name = .ok (some start))
    (direction : Direction) :
    (reachability name direction).applicable t s = .ok true ∧
      (reachability name direction).apply t s = .ok (s.reachable start direction) := by
  unfold reachability
  simp [found, Except.map]

theorem reachability_of_find_none (missing : s.find t name = .ok none) (direction : Direction) :
    (reachability name direction).applicable t s = .ok false ∧
      (reachability name direction).apply t s = .error (.problem (.unknownNode name)) := by
  unfold reachability
  simp [missing, Except.map]

/-- The view from a node fits if the snapshot has the node, and fails by its name otherwise. It shows
what is reached from the node, with all arcs among what is reached, so that none is lost that is
followed from there. A second application changes nothing. -/
theorem reachability_is_closure (derived : Derived origin s) (numbered : s.numbered = true)
    (t : Tree) (name : String) (direction : Direction) :
    ∃ fits, (reachability name direction).applicable t s = .ok fits ∧
      (fits = true ↔ ∃ start ∈ s.nodes, t.findByName? name = some start) ∧
      (fits = false →
        (reachability name direction).apply t s = .error (.problem (.unknownNode name))) ∧
      (fits = true → ∃ start kept, t.findByName? name = some start ∧
        (reachability name direction).apply t s = .ok kept ∧
        (∀ x, x ∈ kept.nodes ↔ ReflTransGen (direction.Follows s.nodeArcs) start x) ∧
        (∀ u v, kept.Arc u v ↔ s.Arc u v ∧ u ∈ kept.nodes ∧ v ∈ kept.nodes) ∧
        (∀ u ∈ kept.nodes, ∀ v, direction.Follows s.nodeArcs u v →
          direction.Follows kept.nodeArcs u v) ∧
        (reachability name direction).applicable t kept = .ok true ∧
        ∃ again, (reachability name direction).apply t kept = .ok again ∧ kept.SameSets again) := by
  have indexed := derived.indexed numbered
  by_cases known : ∃ start ∈ s.nodes, t.findByName? name = some start
  · obtain ⟨x, listed, named⟩ := known
    obtain ⟨start, rfl⟩ := exists_nodeAt listed
    obtain ⟨fits, applied⟩ :=
      reachability_of_find_some (indexed.find_of_nodeAt named) direction
    have kept : (s.reachable start direction).Indexed := indexed_restrict _ _
    have start_kept : s.nodeAt start ∈ (s.reachable start direction).nodes :=
      indexed.mem_nodes_reachable_iff.mpr .refl
    obtain ⟨start', same⟩ := exists_nodeAt start_kept
    obtain ⟨fits_again, applied_again⟩ :=
      reachability_of_find_some (kept.find_of_nodeAt (same ▸ named)) direction
    refine ⟨true, fits, ⟨fun _ => ⟨_, listed, named⟩, fun _ => rfl⟩, by simp, fun _ => ?_⟩
    refine ⟨_, _, named, applied, fun x => indexed.mem_nodes_reachable_iff,
      fun u v => arc_reachable_iff, ?_, fits_again, _, applied_again,
      indexed.sameSets_reachable_reachable same⟩
    intro u reached v step
    exact indexed.follows_reachable_iff.mpr ⟨step, reached⟩
  · have unknown : ∀ x ∈ s.nodes, t.findByName? name ≠ some x :=
      fun x listed named => known ⟨x, listed, named⟩
    obtain ⟨unfit, failed⟩ :=
      reachability_of_find_none (indexed.find_of_not_mem unknown) direction
    exact ⟨false, unfit, by simpa using unknown, fun _ => failed, by simp⟩

/-- Two units that use a third, which uses a fourth. -/
def fork : Tree :=
  [.createLeaf Tree.root "a", .createLeaf Tree.root "b", .createLeaf Tree.root "c",
    .createLeaf Tree.root "d", .link 1 2, .link 2 3, .link 4 2].foldl Tree.perform .empty

/-- Against the arcs, both users are reached and what is used is not. -/
theorem reachability_is_closure_fork :
    Derived fork (ofTree fork) ∧ (ofTree fork).numbered = true ∧
    (∃ kept, (reachability "b" .backward).apply fork (ofTree fork) = .ok kept ∧
      kept.Arc 1 2 ∧ kept.Arc 4 2 ∧ (ofTree fork).Arc 2 3 ∧ 3 ∉ kept.nodes ∧
      ∃ again, (reachability "b" .backward).apply fork kept = .ok again ∧ kept.SameSets again) ∧
    (reachability "e" .backward).apply fork (ofTree fork) =
      .error (.problem (.unknownNode "e")) := by
  have arcs : (ofTree fork).nodeArcs = [(1, 2), (2, 3), (4, 2)] := by with_unfolding_all rfl
  have named : fork.findByName? "b" = some 2 := by with_unfolding_all rfl
  have unnamed : fork.findByName? "e" = none := by with_unfolding_all rfl
  have nodes : (ofTree fork).nodes = [1, 2, 3, 4] := by with_unfolding_all rfl
  have listed : 2 ∈ (ofTree fork).nodes := by simp [nodes]
  have numbered := (indexed_ofTree fork).numbered
  obtain ⟨fits, -, fits_iff, -, closure⟩ :=
    reachability_is_closure (s := ofTree fork) .ofTree numbered fork "b" .backward
  obtain ⟨start, kept, found, applied, nodes, kept_arcs, -, -, again⟩ :=
    closure (fits_iff.mpr ⟨2, listed, named⟩)
  obtain rfl : 2 = start := Option.some.inj (named.symm.trans found)
  have users : ∀ x, ReflTransGen (Direction.backward.Follows (ofTree fork).nodeArcs) 2 x →
      x = 2 ∨ x = 1 ∨ x = 4 := by
    intro x walk
    induction walk with
    | refl => exact .inl rfl
    | tail _ step ih =>
      obtain ⟨rfl, -⟩ | ⟨-, rfl⟩ | ⟨rfl, -⟩ := by simpa [Direction.Follows, arcs] using step
      · exact .inr (.inl rfl)
      · exact absurd ih (by decide)
      · exact .inr (.inr rfl)
  have reached : 1 ∈ kept.nodes ∧ 2 ∈ kept.nodes ∧ 4 ∈ kept.nodes := by
    refine ⟨(nodes 1).mpr (.single ?_), (nodes 2).mpr .refl, (nodes 4).mpr (.single ?_)⟩
    · simp [Direction.Follows, arcs]
    · simp [Direction.Follows, arcs]
  obtain ⟨unfit, -, unfit_iff, failed, -⟩ :=
    reachability_is_closure (s := ofTree fork) .ofTree numbered fork "e" .backward
  refine ⟨.ofTree, numbered, ⟨kept, applied, ?_, ?_, by simp [Arc, arcs], ?_, again⟩, failed ?_⟩
  · exact (kept_arcs 1 2).mpr ⟨by simp [Arc, arcs], reached.1, reached.2.1⟩
  · exact (kept_arcs 4 2).mpr ⟨by simp [Arc, arcs], reached.2.2, reached.2.1⟩
  · intro inside
    have away := users 3 ((nodes 3).mp inside)
    simp at away
  · rw [← Bool.not_eq_true, unfit_iff]
    simp [unnamed]

end View

end ClassCoupling
