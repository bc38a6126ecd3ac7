import ClassCoupling.Proofs.Snapshot.Editing

/-!
# Components of a snapshot

The components found for a numbered snapshot divide its numbers into the classes that reach each
other along its arcs, and are listed against the arcs. The search sees every arc: each one that an
entry records ends at a number.
-/

namespace ClassCoupling.Snapshot

open Relation

variable {t : Tree} {s : Snapshot}

theorem findComponents_eq (numbered : s.numbered = true) : s.findComponents = .ok s.components := by
  simp [findComponents, requireNumberedEntries_eq numbered, bind, Except.bind, pure, Except.pure]

theorem digraph_arc_eq (s : Snapshot) :
    (s.digraph .forward).Arc = fun i j => (i, j) ∈ s.numberedArcs := by
  funext i j
  simp [Digraph.Arc, numberedArcs]

theorem hasCycles_components :
    s.components.hasCycles = true ↔ ∃ i, TransGen (s.digraph .forward).Arc i i := by
  rw [← Digraph.exists_isCycle_iff]
  simp [Components.hasCycles, components]

/-- The components are found without a misuse. Each number is in one of them, at the place recorded
for it; two numbers share a component if they reach each other, and a walk of one step or more that
returns is what makes a cycle. -/
theorem findComponents_divide_by_reachability (derived : Derived t s)
    (numbered : s.numbered = true) :
    ∃ arcs found, s.arcs = .ok arcs ∧ s.findComponents = .ok found ∧
      (arcs.map fun arc => (s.nodeAt arc.1, s.nodeAt arc.2)) = s.nodeArcs ∧
      (∀ members ∈ found.all, members ≠ [] ∧ members.Nodup) ∧
      (∀ i, found.componentOf i < found.all.length) ∧
      (∀ k members, found.all[k]? = some members → ∀ i, found.componentOf i = k ↔ i ∈ members) ∧
      (∀ i j, found.componentOf i = found.componentOf j ↔
        ReflTransGen (fun i j => (i, j) ∈ arcs) i j ∧
          ReflTransGen (fun i j => (i, j) ∈ arcs) j i) ∧
      (found.hasCycles = true ↔ ∃ i, TransGen (fun i j => (i, j) ∈ arcs) i i) := by
  obtain ⟨closed, nodup, -⟩ := Digraph.components_spec (s.digraph .forward)
  refine ⟨s.numberedArcs, s.components, arcs_eq numbered, findComponents_eq numbered,
    map_nodeAt_numberedArcs (derived.indexed numbered), ?_, ?_, ?_, ?_, ?_⟩
  · intro members listed
    exact ⟨closed.ne_nil members listed, (List.nodup_flatten.mp nodup).1 members listed⟩
  · intro i
    exact Digraph.componentTable_lt _ i
  · intro k members here i
    exact Digraph.componentTable_eq_iff here
  · intro i j
    rw [← digraph_arc_eq]
    exact Digraph.componentTable_eq_iff_reaches
  · rw [← digraph_arc_eq]
    exact hasCycles_components

/-- Six units, four of them on a cycle that has two ways round. -/
def letters : Tree :=
  [.createLeaf Tree.root "a", .createLeaf Tree.root "b", .createLeaf Tree.root "c",
    .createLeaf Tree.root "d", .createLeaf Tree.root "e", .createLeaf Tree.root "f", .link 1 4,
    .link 1 6, .link 2 1, .link 3 4, .link 4 5, .link 5 1, .link 6 5].foldl Tree.perform .empty

def letterGraph : Snapshot :=
  ⟨[⟨1, 0, 1, [4, 6], [2, 5]⟩, ⟨2, 1, 1, [1], []⟩, ⟨3, 2, 1, [4], []⟩, ⟨4, 3, 1, [5], [1, 3]⟩,
    ⟨5, 4, 1, [1], [4, 6]⟩, ⟨6, 5, 1, [5], [1]⟩],
    [(1, 0), (2, 1), (3, 2), (4, 3), (5, 4), (6, 5)], 13, true⟩

/-- The number of a letter, counted from `a`. -/
def letter (k : Fin 6) : Fin letterGraph.size := k

set_option maxRecDepth 1000 in
theorem derived_letterGraph : Derived letters letterGraph := by
  have taken : letterGraph = ofTree letters := by with_unfolding_all rfl
  exact taken ▸ .ofTree

theorem findComponents_divide_by_reachability_letters :
    Derived letters letterGraph ∧ letterGraph.numbered = true ∧
    ∃ found, letterGraph.findComponents = .ok found ∧ found.hasCycles = true ∧
      found.componentOf (letter 3) = found.componentOf (letter 5) ∧
      found.componentOf (letter 0) ≠ found.componentOf (letter 1) := by
  obtain ⟨arcs, found, asked, divided, -, -, -, -, together, cyclic⟩ :=
    findComponents_divide_by_reachability derived_letterGraph rfl
  rw [arcs_eq rfl] at asked
  cases asked
  -- From `a` there are two ways to `e`, by `d` and by `f`, and one way back.
  have a_d : (letter 0, letter 3) ∈ letterGraph.numberedArcs := by decide +kernel
  have d_e : (letter 3, letter 4) ∈ letterGraph.numberedArcs := by decide +kernel
  have a_f : (letter 0, letter 5) ∈ letterGraph.numberedArcs := by decide +kernel
  have f_e : (letter 5, letter 4) ∈ letterGraph.numberedArcs := by decide +kernel
  have e_a : (letter 4, letter 0) ∈ letterGraph.numberedArcs := by decide +kernel
  have none_b : ∀ i, (i, letter 1) ∉ letterGraph.numberedArcs := by decide +kernel
  refine ⟨derived_letterGraph, rfl, found, divided, ?_, ?_, ?_⟩
  · exact cyclic.mpr ⟨letter 0, .tail (.tail (.single a_d) d_e) e_a⟩
  · exact (together _ _).mpr
      ⟨.tail (.tail (.single d_e) e_a) a_f, .tail (.tail (.single f_e) e_a) a_d⟩
  · intro same
    cases ((together _ _).mp same).1.cases_tail with
    | inl equal => exact absurd equal (by decide)
    | inr last =>
      obtain ⟨i, -, arc⟩ := last
      exact none_b i arc

/-- No arc leads to a component that is listed later, and a component is listed after every other
to which a walk leads from it. -/
theorem findComponents_list_targets_first (derived : Derived t s) (numbered : s.numbered = true) :
    ∃ arcs found, s.arcs = .ok arcs ∧ s.findComponents = .ok found ∧
      (arcs.map fun arc => (s.nodeAt arc.1, s.nodeAt arc.2)) = s.nodeArcs ∧
      (∀ i j, (i, j) ∈ arcs → found.componentOf j ≤ found.componentOf i) ∧
      ∀ (k m : Nat) members others, found.all[k]? = some members →
        found.all[m]? = some others → k ≠ m →
        (∃ i ∈ members, ∃ j ∈ others, ReflTransGen (fun i j => (i, j) ∈ arcs) i j) → m < k := by
  refine ⟨s.numberedArcs, s.components, arcs_eq numbered, findComponents_eq numbered,
    map_nodeAt_numberedArcs (derived.indexed numbered), ?_, ?_⟩
  · intro i j arc
    apply Digraph.componentTable_le_of_arc
    rw [digraph_arc_eq]
    exact arc
  · rintro k m members others here there other ⟨i, source, j, target, walk⟩
    rw [← digraph_arc_eq] at walk
    have le := Digraph.componentTable_le_of_reaches walk
    rw [(Digraph.componentTable_eq_iff here).mpr source,
      (Digraph.componentTable_eq_iff there).mpr target] at le
    exact Nat.lt_of_le_of_ne le other.symm

theorem findComponents_list_targets_first_letters :
    Derived letters letterGraph ∧ letterGraph.numbered = true ∧
    ∃ found, letterGraph.findComponents = .ok found ∧
      found.componentOf (letter 3) ≤ found.componentOf (letter 2) ∧
      found.componentOf (letter 4) < found.componentOf (letter 1) := by
  obtain ⟨arcs, found, asked, divided, -, arc_le, walk_lt⟩ :=
    findComponents_list_targets_first derived_letterGraph rfl
  rw [arcs_eq rfl] at asked
  rw [findComponents_eq rfl] at divided
  cases asked
  cases divided
  have c_d : (letter 2, letter 3) ∈ letterGraph.numberedArcs := by decide +kernel
  have b_a : (letter 1, letter 0) ∈ letterGraph.numberedArcs := by decide +kernel
  have a_f : (letter 0, letter 5) ∈ letterGraph.numberedArcs := by decide +kernel
  have f_e : (letter 5, letter 4) ∈ letterGraph.numberedArcs := by decide +kernel
  have none_b : ∀ i, (i, letter 1) ∉ letterGraph.numberedArcs := by decide +kernel
  refine ⟨derived_letterGraph, rfl, _, findComponents_eq rfl, arc_le _ _ c_d, ?_⟩
  -- The way from `b` to `e` enters the cycle at `a` and goes by `f`; nothing leads back to `b`.
  obtain ⟨members, here, source⟩ :=
    Digraph.exists_component_at (letterGraph.digraph .forward) (letter 1)
  obtain ⟨others, there, target⟩ :=
    Digraph.exists_component_at (letterGraph.digraph .forward) (letter 4)
  refine walk_lt _ _ members others here there ?_
    ⟨letter 1, source, letter 4, target, .tail (.tail (.single b_a) a_f) f_e⟩
  intro same
  have back := (Digraph.componentTable_eq_iff_reaches.mp same).2
  rw [Digraph.Reaches, digraph_arc_eq] at back
  rcases back.cases_tail with equal | ⟨i, -, arc⟩
  · exact absurd equal (by decide)
  · exact none_b i arc

end ClassCoupling.Snapshot
