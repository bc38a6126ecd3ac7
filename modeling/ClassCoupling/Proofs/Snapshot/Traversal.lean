import ClassCoupling.Proofs.Digraph.Traversal
import ClassCoupling.Proofs.Snapshot.Components

/-!
# Traversals of a snapshot

Following the arcs of a numbered snapshot, or following them back, a traversal lists the numbers it
can reach: in the order of their distances, or in the order of the recursive search.
-/

namespace ClassCoupling

open Relation

/-- One step along the arcs, or against them. -/
def Direction.Follows {α : Type} (direction : Direction) (arcs : List (α × α)) (i j : α) : Prop :=
  match direction with
  | .forward => (i, j) ∈ arcs
  | .backward => (j, i) ∈ arcs

namespace Snapshot

variable {t : Tree} {s : Snapshot} {direction : Direction}

/-! ## The graph of the numbers, either way -/

theorem Indexed.digraph_arc_eq_follows (indexed : s.Indexed) (direction : Direction) :
    (s.digraph direction).Arc = direction.Follows s.numberedArcs := by
  cases direction with
  | forward => exact digraph_arc_eq s
  | backward =>
    funext i j
    have recorded : (s.digraph .backward).Arc i j ↔
        ∃ x ∈ (s.entries.get i).predecessors, s.place? x = some j := by
      simp [Digraph.Arc, digraph, Entry.neighbours]
    rw [recorded, Direction.Follows, mem_numberedArcs indexed]
    apply propext
    constructor
    · rintro ⟨x, mem, place⟩
      rw [indexed.place?_eq_some_iff.mp place]
      exact (indexed.mem_predecessors _ (entry_mem i) x).mp mem
    · intro arc
      exact ⟨_, (indexed.mem_predecessors _ (entry_mem i) _).mpr arc,
        indexed.place?_eq_some_iff.mpr rfl⟩

theorem Consistent.mem_nodes_of_neighbour (consistent : s.Consistent) {e : Entry} {x : NodeId}
    (listed : e ∈ s.entries) (near : x ∈ e.neighbours direction) : x ∈ s.nodes := by
  cases direction with
  | forward => exact consistent.mem_nodes_of_successor e listed x near
  | backward => exact source_mem ((consistent.mem_predecessors e listed x).mp near)

/-- The numbers stand in the order in which an entry lists its neighbours. -/
theorem Indexed.map_nodeAt_neighbours (indexed : s.Indexed) (direction : Direction)
    (i : Fin s.size) :
    ((s.digraph direction).successors i).map s.nodeAt = (s.entries.get i).neighbours direction := by
  rw [digraph, Digraph.successors_ofFn]
  apply map_nodeAt_places indexed
  intro x near
  exact indexed.mem_nodes_of_neighbour (entry_mem i) near

section Numbered

variable (numbered : s.numbered = true)
include numbered

theorem neighbours_eq (direction : Direction) (i : Fin s.size) :
    s.neighbours direction i = .ok ((s.digraph direction).successors i) := by
  simp [neighbours, requireNumbered, numbered, entryAt_eq, digraph, bind, Except.bind, pure,
    Except.pure]

theorem breadthFirst_eq (start : Fin s.size) (direction : Direction) :
    s.breadthFirst start direction = .ok ((s.digraph direction).breadthFirst start) := by
  simp [breadthFirst, locate, requireNumbered, numbered, bind, Except.bind, pure, Except.pure]

theorem depthFirst_eq (start : Fin s.size) (direction : Direction) :
    s.depthFirst start direction = .ok ((s.digraph direction).depthFirst start) := by
  simp [depthFirst, locate, requireNumbered, numbered, bind, Except.bind, pure, Except.pure]

end Numbered

/-! ## Level after level -/

/-- Whatever can be reached is listed once, beginning with the start and never coming nearer to it
again. -/
theorem breadthFirst_lists_by_distance (derived : Derived t s) (numbered : s.numbered = true)
    (start : Fin s.size) (direction : Direction) :
    ∃ arcs order, s.arcs = .ok arcs ∧ s.breadthFirst start direction = .ok order ∧
      (arcs.map fun arc => (s.nodeAt arc.1, s.nodeAt arc.2)) = s.nodeArcs ∧
      (∀ i : Fin s.size, ∃ near, s.neighbours direction i = .ok near ∧
        ∀ j, j ∈ near ↔ direction.Follows arcs i j) ∧
      order.head? = some start ∧ order.Nodup ∧
      (∀ i, i ∈ order ↔ ReflTransGen (direction.Follows arcs) start i) ∧
      order.Pairwise fun i j =>
        distance (direction.Follows arcs) start i ≤ distance (direction.Follows arcs) start j := by
  have indexed := derived.indexed numbered
  have follows := indexed.digraph_arc_eq_follows direction
  refine ⟨s.numberedArcs, _, arcs_eq numbered, breadthFirst_eq numbered start direction,
    map_nodeAt_numberedArcs indexed, ?_, Digraph.head?_breadthFirst _ start,
    Digraph.breadthFirst_nodup _ start, ?_, ?_⟩
  · intro i
    refine ⟨_, neighbours_eq numbered direction i, ?_⟩
    intro j
    rw [← follows]
    rfl
  · intro i
    rw [← follows]
    exact Digraph.mem_breadthFirst
  · rw [← follows]
    exact Digraph.breadthFirst_ordered _ start

/-- Four units on cycles of three lengths. -/
def roundabout : Tree :=
  [.createLeaf Tree.root "a", .createLeaf Tree.root "b", .createLeaf Tree.root "c",
    .createLeaf Tree.root "d", .link 1 2, .link 1 4, .link 2 3, .link 3 4, .link 4 2,
    .link 4 1].foldl Tree.perform .empty

def roundaboutGraph : Snapshot :=
  ⟨[⟨1, 0, 1, [2, 4], [4]⟩, ⟨2, 1, 1, [3], [1, 4]⟩, ⟨3, 2, 1, [4], [2]⟩,
    ⟨4, 3, 1, [2, 1], [1, 3]⟩], [(1, 0), (2, 1), (3, 2), (4, 3)], 10, true⟩

/-- The number of an exit, counted from `a`. -/
def exit (k : Fin 4) : Fin roundaboutGraph.size := k

theorem exit_inj {i j : Fin 4} : exit i = exit j ↔ i = j := Iff.rfl

set_option maxRecDepth 1000 in
theorem derived_roundaboutGraph : Derived roundabout roundaboutGraph := by
  have taken : roundaboutGraph = ofTree roundabout := by with_unfolding_all rfl
  exact taken ▸ .ofTree

theorem breadthFirst_lists_by_distance_roundabout :
    Derived roundabout roundaboutGraph ∧ roundaboutGraph.numbered = true ∧
    ∃ arcs, roundaboutGraph.arcs = .ok arcs ∧
      roundaboutGraph.breadthFirst (exit 0) .backward = .ok [exit 0, exit 3, exit 2, exit 1] ∧
      ReflTransGen (Direction.backward.Follows arcs) (exit 0) (exit 1) ∧
      distance (Direction.backward.Follows arcs) (exit 0) (exit 2) ≤
        distance (Direction.backward.Follows arcs) (exit 0) (exit 1) := by
  obtain ⟨arcs, order, asked, listed, -, -, -, -, reached, ordered⟩ :=
    breadthFirst_lists_by_distance derived_roundaboutGraph rfl (exit 0) .backward
  have sources : (roundaboutGraph.digraph .backward).successors (exit 0) = [exit 3] ∧
      (roundaboutGraph.digraph .backward).successors (exit 1) = [exit 0, exit 3] ∧
      (roundaboutGraph.digraph .backward).successors (exit 2) = [exit 1] ∧
      (roundaboutGraph.digraph .backward).successors (exit 3) = [exit 0, exit 2] := by
    decide +kernel
  have order_eq : order = [exit 0, exit 3, exit 2, exit 1] := by
    rw [breadthFirst_eq rfl] at listed
    cases listed
    simp [Digraph.breadthFirst, Digraph.breadthFirstFrom, sources, exit_inj, List.eraseDups_cons]
  subst order_eq
  refine ⟨derived_roundaboutGraph, rfl, arcs, asked, listed, (reached _).mp (by simp), ?_⟩
  exact List.pairwise_iff_getElem.mp ordered 2 3 (by decide) (by decide) (by decide)

/-! ## Going down before going on -/

/-- The list is the one of the recursive search: a number seen before is passed over; another is put
on record, and then its neighbours are visited in the order in which its entry lists them. -/
theorem depthFirst_is_recursive_search (derived : Derived t s) (numbered : s.numbered = true)
    (start : Fin s.size) (direction : Direction) :
    ∃ order levels, s.depthFirst start direction = .ok order ∧
      s.breadthFirst start direction = .ok levels ∧
      order = (s.digraph direction).visit [] start ∧
      (∀ seen (i : Fin s.size), ∃ near, s.neighbours direction i = .ok near ∧
        near.map s.nodeAt = (s.entries.get i).neighbours direction ∧
        (s.digraph direction).visit seen i =
          if i ∈ seen then seen else near.foldl (s.digraph direction).visit (seen ++ [i])) ∧
      order.Perm levels := by
  refine ⟨_, _, depthFirst_eq numbered start direction, breadthFirst_eq numbered start direction,
    Digraph.depthFirst_eq_visit _ start, ?_, Digraph.depthFirst_perm_breadthFirst _ start⟩
  intro seen i
  exact ⟨_, neighbours_eq numbered direction i,
    (derived.indexed numbered).map_nodeAt_neighbours direction i, Digraph.visit_eq _ seen i⟩

theorem depthFirst_is_recursive_search_roundabout :
    Derived roundabout roundaboutGraph ∧ roundaboutGraph.numbered = true ∧
    roundaboutGraph.depthFirst (exit 0) .forward = .ok [exit 0, exit 1, exit 2, exit 3] ∧
    (roundaboutGraph.digraph .forward).visit [] (exit 0) = [exit 0, exit 1, exit 2, exit 3] ∧
    roundaboutGraph.breadthFirst (exit 0) .forward = .ok [exit 0, exit 1, exit 3, exit 2] ∧
    [exit 0, exit 1, exit 2, exit 3].Perm [exit 0, exit 1, exit 3, exit 2] := by
  obtain ⟨order, levels, listed, other, recursive, -, perm⟩ :=
    depthFirst_is_recursive_search derived_roundaboutGraph rfl (exit 0) .forward
  have targets : (roundaboutGraph.digraph .forward).successors (exit 0) = [exit 1, exit 3] ∧
      (roundaboutGraph.digraph .forward).successors (exit 1) = [exit 2] ∧
      (roundaboutGraph.digraph .forward).successors (exit 2) = [exit 3] ∧
      (roundaboutGraph.digraph .forward).successors (exit 3) = [exit 1, exit 0] := by
    decide +kernel
  have order_eq : order = [exit 0, exit 1, exit 2, exit 3] := by
    rw [depthFirst_eq rfl] at listed
    cases listed
    simp [Digraph.depthFirst, Digraph.depthFirstFrom, targets, exit_inj]
  have levels_eq : levels = [exit 0, exit 1, exit 3, exit 2] := by
    rw [breadthFirst_eq rfl] at other
    cases other
    simp [Digraph.breadthFirst, Digraph.breadthFirstFrom, targets, exit_inj, List.eraseDups_cons]
  subst order_eq levels_eq
  exact ⟨derived_roundaboutGraph, rfl, listed, recursive.symm, other, perm⟩

end Snapshot

end ClassCoupling
