import ClassCoupling.Snapshot.Coupling
import ClassCoupling.Proofs.Snapshot.Traversal
import Mathlib.Algebra.BigOperators.Fin
import Mathlib.Combinatorics.Enumerative.DoubleCounting
import Mathlib.Data.Set.Card

/-!
# Coupling, reachability and components

The figures of an entry count what it reaches and what reaches it. Along an arc the first does not
grow and the second does not fall, and either stays the same exactly inside a component.
-/

namespace ClassCoupling

open Relation

/-! ## Counting what is reached -/

section Counting

universe u
variable {α : Type u} {r : α → α → Prop} {a b : α}

theorem reached_subset (step : r a b) : { c | ReflTransGen r b c } ⊆ { c | ReflTransGen r a c } :=
  fun _ reached => reached.head step

variable [Fintype α]

/-- Related pairs may be counted from either end. -/
theorem sum_ncard_comm (r : α → α → Prop) :
    ∑ a, { b | r a b }.ncard = ∑ b, { a | r a b }.ncard := by
  classical
  simp only [Set.ncard_eq_toFinset_card', Set.toFinset_ofPred]
  exact Finset.sum_card_bipartiteAbove_eq_sum_card_bipartiteBelow r

theorem ncard_reached_le (step : r a b) :
    { c | ReflTransGen r b c }.ncard ≤ { c | ReflTransGen r a c }.ncard :=
  Set.ncard_le_ncard (reached_subset step)

/-- A step that leaves as many within reach as before can be taken back. -/
theorem ncard_reached_eq_iff (step : r a b) :
    { c | ReflTransGen r b c }.ncard = { c | ReflTransGen r a c }.ncard ↔ ReflTransGen r b a := by
  constructor
  · intro same
    have equal := Set.eq_of_subset_of_ncard_le (reached_subset step) same.ge
    have here : a ∈ { c | ReflTransGen r a c } := .refl
    rwa [← equal] at here
  · intro back
    have equal : { c | ReflTransGen r b c } = { c | ReflTransGen r a c } :=
      (reached_subset step).antisymm fun _ reached => back.trans reached
    rw [equal]

end Counting

theorem total_ofFn {n : Nat} (f : Fin n → Nat) : total (List.ofFn f) = ∑ i, f i := by
  rw [← List.sum_ofFn]
  rfl

theorem Digraph.length_breadthFirst {n : Nat} (g : Digraph n) (v : Fin n) :
    (g.breadthFirst v).length = { u | g.Reaches v u }.ncard := by
  have listed : { u | g.Reaches v u } = ↑(g.breadthFirst v).toFinset := by
    ext u
    simp [mem_breadthFirst]
  rw [listed, Set.ncard_coe_finset, List.toFinset_card_of_nodup (breadthFirst_nodup g v)]

namespace Snapshot

variable {t : Tree} {s : Snapshot} {i j : Fin s.size}

/-! ## The figures of a snapshot -/

theorem findCoupling_eq (numbered : s.numbered = true) : s.findCoupling = .ok s.coupling := by
  simp [findCoupling, requireNumberedEntries_eq numbered, bind, Except.bind, pure, Except.pure]

/-- How many numbers are reached from one, the number itself included. -/
noncomputable def reach (s : Snapshot) (direction : Direction) (i : Fin s.size) : Nat :=
  { j | ReflTransGen (direction.Follows s.numberedArcs) i j }.ncard

theorem Indexed.coupling_eq (indexed : s.Indexed) :
    s.coupling = ⟨List.ofFn (s.reach .forward), List.ofFn (s.reach .backward)⟩ := by
  have lengths : ∀ direction, (List.finRange s.size).map
      (fun i => ((s.digraph direction).breadthFirst i).length) = List.ofFn (s.reach direction) := by
    intro direction
    rw [List.ofFn_eq_map]
    apply List.map_congr_left
    intro i _
    rw [Digraph.length_breadthFirst, Digraph.Reaches,
      indexed.digraph_arc_eq_follows direction, reach]
  rw [← lengths, ← lengths]
  rfl

/-- Going against the arcs leads to what the arcs lead from. -/
theorem reaches_backward_iff : ReflTransGen (Direction.backward.Follows s.numberedArcs) i j ↔
    ReflTransGen (fun i j => (i, j) ∈ s.numberedArcs) j i := reflTransGen_swap

theorem sum_reach (s : Snapshot) : ∑ i, s.reach .forward i = ∑ i, s.reach .backward i := by
  simp only [reach, reaches_backward_iff]
  exact sum_ncard_comm _

theorem componentOf_eq_iff_of_arc (arc : (i, j) ∈ s.numberedArcs) :
    s.components.componentOf i = s.components.componentOf j ↔
      ReflTransGen (fun i j => (i, j) ∈ s.numberedArcs) j i := by
  have both : s.components.componentOf i = s.components.componentOf j ↔ _ :=
    Digraph.componentTable_eq_iff_reaches
  rw [both, ← digraph_arc_eq]
  refine and_iff_right (.single ?_)
  rw [digraph_arc_eq]
  exact arc

/-- The figures count what is reached along the arcs and against them, and their sums agree. An arc
leads to no more than its source does and back from no less than its target does; where one of the
figures does not change, both ends are in one component. -/
theorem coupling_counts_reachability (derived : Derived t s) (numbered : s.numbered = true) :
    ∃ arcs found coupling, ∃ dependsOn usedBy : Fin s.size → Nat,
      s.arcs = .ok arcs ∧ s.findComponents = .ok found ∧ s.findCoupling = .ok coupling ∧
      (arcs.map fun arc => (s.nodeAt arc.1, s.nodeAt arc.2)) = s.nodeArcs ∧
      coupling.dependsOn = List.ofFn dependsOn ∧ coupling.usedBy = List.ofFn usedBy ∧
      (∀ i, dependsOn i = { j | ReflTransGen (fun i j => (i, j) ∈ arcs) i j }.ncard) ∧
      (∀ i, usedBy i = { j | ReflTransGen (fun i j => (i, j) ∈ arcs) j i }.ncard) ∧
      total coupling.dependsOn = total coupling.usedBy ∧
      ∀ i j, (i, j) ∈ arcs →
        dependsOn j ≤ dependsOn i ∧ usedBy i ≤ usedBy j ∧
        (dependsOn i = dependsOn j ↔ found.componentOf i = found.componentOf j) ∧
        (usedBy i = usedBy j ↔ found.componentOf i = found.componentOf j) := by
  have indexed := derived.indexed numbered
  refine ⟨s.numberedArcs, s.components, _, s.reach .forward, s.reach .backward, arcs_eq numbered,
    findComponents_eq numbered, findCoupling_eq numbered, map_nodeAt_numberedArcs indexed,
    ?_, ?_, ?_, ?_, ?_, ?_⟩
  · rw [indexed.coupling_eq]
  · rw [indexed.coupling_eq]
  · intro i
    rfl
  · intro i
    simp only [reach, reaches_backward_iff]
  · rw [indexed.coupling_eq, total_ofFn, total_ofFn, sum_reach]
  · intro i j arc
    have along : Direction.forward.Follows s.numberedArcs i j := arc
    have against : Direction.backward.Follows s.numberedArcs j i := arc
    refine ⟨ncard_reached_le along, ncard_reached_le against, ?_, ?_⟩
    · rw [componentOf_eq_iff_of_arc arc, eq_comm]
      exact ncard_reached_eq_iff along
    · rw [componentOf_eq_iff_of_arc arc, ← reaches_backward_iff]
      exact ncard_reached_eq_iff against

theorem coupling_counts_reachability_letters :
    Derived letters letterGraph ∧ letterGraph.numbered = true ∧
    ∃ coupling, ∃ dependsOn usedBy : Fin letterGraph.size → Nat,
      letterGraph.findCoupling = .ok coupling ∧ coupling.dependsOn = List.ofFn dependsOn ∧
      coupling.usedBy = List.ofFn usedBy ∧ total coupling.dependsOn = total coupling.usedBy ∧
      dependsOn (letter 3) = dependsOn (letter 0) ∧ usedBy (letter 0) = usedBy (letter 3) ∧
      dependsOn (letter 3) < dependsOn (letter 2) ∧ usedBy (letter 2) < usedBy (letter 3) := by
  obtain ⟨arcs, found, coupling, dependsOn, usedBy, asked, divided, counted, -, forward, backward,
    -, -, sums, along⟩ := coupling_counts_reachability derived_letterGraph rfl
  rw [arcs_eq rfl] at asked
  rw [findComponents_eq rfl] at divided
  cases asked
  cases divided
  have a_d : (letter 0, letter 3) ∈ letterGraph.numberedArcs := by decide +kernel
  have d_e : (letter 3, letter 4) ∈ letterGraph.numberedArcs := by decide +kernel
  have e_a : (letter 4, letter 0) ∈ letterGraph.numberedArcs := by decide +kernel
  have c_d : (letter 2, letter 3) ∈ letterGraph.numberedArcs := by decide +kernel
  have none_c : ∀ i, (i, letter 2) ∉ letterGraph.numberedArcs := by decide +kernel
  -- The arc from `a` to `d` lies on a cycle, the one from `c` to `d` does not.
  have together := (componentOf_eq_iff_of_arc a_d).mpr (.tail (.single d_e) e_a)
  have apart : letterGraph.components.componentOf (letter 2) ≠
      letterGraph.components.componentOf (letter 3) := by
    intro same
    rcases ((componentOf_eq_iff_of_arc c_d).mp same).cases_tail with equal | ⟨i, -, arc⟩
    · exact absurd equal (by decide)
    · exact none_c i arc
  obtain ⟨-, -, dependsOn_a_d, usedBy_a_d⟩ := along _ _ a_d
  obtain ⟨dependsOn_le, usedBy_le, dependsOn_c_d, usedBy_c_d⟩ := along _ _ c_d
  refine ⟨derived_letterGraph, rfl, coupling, dependsOn, usedBy, counted, forward, backward, sums,
    (dependsOn_a_d.mpr together).symm, usedBy_a_d.mpr together, ?_, ?_⟩
  · exact Nat.lt_of_le_of_ne dependsOn_le fun same => apart (dependsOn_c_d.mp same.symm)
  · exact Nat.lt_of_le_of_ne usedBy_le fun same => apart (usedBy_c_d.mp same)

end Snapshot

end ClassCoupling
