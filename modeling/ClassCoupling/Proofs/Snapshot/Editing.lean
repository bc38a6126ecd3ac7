import ClassCoupling.Proofs.Snapshot.Cycles
import ClassCoupling.Proofs.Snapshot.Quotient

/-!
# Editing snapshots

Whatever snapshot is taken of a tree or made from others, and however its arcs and nodes are edited
afterwards, it stays consistent. Nothing has to be renumbered before the next edit: arcs are kept by
node, and only the numbers wait for the renumbering.
-/

namespace ClassCoupling

namespace Snapshot

variable {s s' : Snapshot} {u v x source target : NodeId}

/-! ## One edit -/

theorem mem_adjoin {nodes : List NodeId} : x ∈ adjoin nodes u ↔ x ∈ nodes ∨ x = u := by
  unfold adjoin
  split
  next known =>
    constructor
    · exact .inl
    · rintro (mem | rfl)
      · exact mem
      · exact known
  next => simp

theorem nodup_adjoin {nodes : List NodeId} (nodup : nodes.Nodup) : (adjoin nodes u).Nodup := by
  unfold adjoin
  split
  next => exact nodup
  next new => exact List.nodup_append.mpr ⟨nodup, List.nodup_singleton u, by grind⟩

@[simp] theorem nodes_changeArc (change : List NodeId → NodeId → List NodeId) :
    (s.changeArc change source target).nodes = s.nodes := by
  simp [changeArc, nodes, Function.comp_def]

theorem mem_nodeArcs_changeArc_adjoin (listed : source ∈ s.nodes) :
    (u, v) ∈ (s.changeArc adjoin source target).nodeArcs ↔
      (u, v) ∈ s.nodeArcs ∨ (u = source ∧ v = target) := by
  simp only [mem_nodeArcs, changeArc, List.mem_map]
  constructor
  · rintro ⟨_, ⟨e, mem, rfl⟩, rfl, successor⟩
    dsimp only at successor
    split at successor
    next here =>
      rcases mem_adjoin.mp successor with old | new
      · exact .inl ⟨e, mem, rfl, old⟩
      · exact .inr ⟨here, new⟩
    next => exact .inl ⟨e, mem, rfl, successor⟩
  · rintro (⟨e, mem, rfl, successor⟩ | ⟨rfl, rfl⟩)
    · refine ⟨_, ⟨e, mem, rfl⟩, rfl, ?_⟩
      dsimp only
      split
      · exact mem_adjoin.mpr (.inl successor)
      · exact successor
    · obtain ⟨e, mem, rfl⟩ := mem_nodes.mp listed
      refine ⟨_, ⟨e, mem, rfl⟩, rfl, ?_⟩
      rw [if_pos rfl]
      exact mem_adjoin.mpr (.inr rfl)

theorem Consistent.changeArc_adjoin (consistent : s.Consistent) (source_mem : source ∈ s.nodes)
    (target_mem : target ∈ s.nodes) : (s.changeArc adjoin source target).Consistent := by
  refine
    { nodes_nodup := by
        rw [nodes_changeArc]
        exact consistent.nodes_nodup
      positions_eq := ?_, successors_nodup := ?_, predecessors_nodup := ?_
      mem_nodes_of_successor := ?_, mem_predecessors := ?_, index_eq := ?_ }
  · simp [Snapshot.changeArc, consistent.positions_eq, Function.comp_def]
  · intro _ changed
    obtain ⟨e, listed, rfl⟩ := List.mem_map.mp changed
    have nodup := consistent.successors_nodup e listed
    dsimp only
    split
    · exact nodup_adjoin nodup
    · exact nodup
  · intro _ changed
    obtain ⟨e, listed, rfl⟩ := List.mem_map.mp changed
    have nodup := consistent.predecessors_nodup e listed
    dsimp only
    split
    · exact nodup_adjoin nodup
    · exact nodup
  · intro e changed x successor
    rw [nodes_changeArc]
    have arc := mem_nodeArcs.mpr ⟨e, changed, rfl, successor⟩
    rcases (mem_nodeArcs_changeArc_adjoin source_mem).mp arc with old | ⟨-, rfl⟩
    · exact consistent.target_mem old
    · exact target_mem
  · intro _ changed x
    obtain ⟨e, listed, rfl⟩ := List.mem_map.mp changed
    rw [mem_nodeArcs_changeArc_adjoin source_mem, ← consistent.mem_predecessors e listed]
    dsimp only
    by_cases here : e.node = target
    · simp [here, mem_adjoin]
    · simp [here]
  · intro numbered i e found
    simp only [Snapshot.changeArc, List.getElem?_map, Option.map_eq_some_iff] at found
    obtain ⟨old, found, rfl⟩ := found
    exact consistent.index_eq numbered i old found

/-- An edit of an arc that succeeds found both of its ends. -/
theorem exists_ends {β : Type} {i j : Nat} {edit : Entry → Entry → Except Misuse β} {result : β}
    (edited : (do let e ← s.entryAt i; let f ← s.entryAt j; edit e f) = .ok result) :
    ∃ e f, s.entries[i]? = some e ∧ s.entries[j]? = some f ∧ edit e f = .ok result := by
  cases atI : s.entryAt i with
  | error => simp [atI, bind, Except.bind] at edited
  | ok e =>
    cases atJ : s.entryAt j with
    | error => simp [atI, atJ, bind, Except.bind] at edited
    | ok f =>
      simp only [atI, atJ, bind, Except.bind] at edited
      exact ⟨e, f, entryAt_eq_ok_iff.mp atI, entryAt_eq_ok_iff.mp atJ, edited⟩

theorem Consistent.addArc {i j : Nat} {added : Bool} (consistent : s.Consistent)
    (edited : s.addArc i j = .ok (s', added)) : s'.Consistent ∧ s'.nodes = s.nodes := by
  obtain ⟨e, f, atI, atJ, edited⟩ := exists_ends edited
  split at edited
  next =>
    cases edited
    exact ⟨consistent, rfl⟩
  next =>
    rw [updateArc_eq_changeArc consistent.nodes_nodup atI atJ] at edited
    cases edited
    exact ⟨consistent.changeArc_adjoin (mem_nodes.mpr ⟨e, List.mem_of_getElem? atI, rfl⟩)
      (mem_nodes.mpr ⟨f, List.mem_of_getElem? atJ, rfl⟩), nodes_changeArc _⟩

theorem Consistent.removeArc {i j : Nat} {removed : Bool} (consistent : s.Consistent)
    (edited : s.removeArc i j = .ok (s', removed)) : s'.Consistent ∧ s'.nodes = s.nodes := by
  have left := consistent.edited_removeArc i j
  rw [edited] at left
  change s' = _ at left
  rw [left, nodes_filterArcs]
  exact ⟨consistent.filterArcs _, rfl⟩

/-- What is left when all entries of some nodes are taken out, and the arcs that end there. -/
def without (removed : List NodeId) (s : Snapshot) : Snapshot where
  entries := (s.entries.filter fun entry => entry.node ∉ removed).map fun entry => { entry with
    successors := entry.successors.filter (· ∉ removed)
    predecessors := entry.predecessors.filter (· ∉ removed) }
  positions := s.positions.filter fun position => position.1 ∉ removed
  generation := s.generation
  numbered := false

theorem mem_entries_without {removed : List NodeId} {e : Entry}
    (left : e ∈ (s.without removed).entries) :
    ∃ old ∈ s.entries, old.node ∉ removed ∧ e = { old with
      successors := old.successors.filter (· ∉ removed)
      predecessors := old.predecessors.filter (· ∉ removed) } := by
  obtain ⟨old, kept, rfl⟩ := List.mem_map.mp left
  obtain ⟨listed, stays⟩ := List.mem_filter.mp kept
  exact ⟨old, listed, by simpa using stays, rfl⟩

theorem nodes_without (removed : List NodeId) :
    (s.without removed).nodes = s.nodes.filter (· ∉ removed) := by
  simp [without, nodes, List.filter_map, Function.comp_def]

theorem nodeArcs_without (removed : List NodeId) :
    (s.without removed).nodeArcs =
      s.nodeArcs.filter fun arc => arc.1 ∉ removed ∧ arc.2 ∉ removed := by
  unfold nodeArcs without
  induction s.entries with
  | nil => rfl
  | cons e entries ih =>
    rw [List.flatMap_cons, List.filter_append, ← ih, List.filter_map]
    by_cases gone : e.node ∈ removed <;> simp [gone, Function.comp_def]

theorem Consistent.without (consistent : s.Consistent) (removed : List NodeId) :
    (s.without removed).Consistent where
  nodes_nodup := by
    rw [nodes_without]
    exact consistent.nodes_nodup.filter _
  positions_eq := by
    simp [Snapshot.without, consistent.positions_eq, List.filter_map, Function.comp_def]
  successors_nodup e left := by
    obtain ⟨old, listed, -, rfl⟩ := mem_entries_without left
    exact (consistent.successors_nodup old listed).filter _
  predecessors_nodup e left := by
    obtain ⟨old, listed, -, rfl⟩ := mem_entries_without left
    exact (consistent.predecessors_nodup old listed).filter _
  mem_nodes_of_successor e left x successor := by
    obtain ⟨old, listed, -, rfl⟩ := mem_entries_without left
    obtain ⟨successor, stays⟩ := List.mem_filter.mp successor
    rw [nodes_without]
    exact List.mem_filter.mpr ⟨consistent.mem_nodes_of_successor old listed x successor, stays⟩
  mem_predecessors e left x := by
    obtain ⟨old, listed, stays, rfl⟩ := mem_entries_without left
    rw [nodeArcs_without, List.mem_filter, List.mem_filter, consistent.mem_predecessors old listed]
    simp [stays]
  index_eq numbered := by cases numbered

/-- Each node stands once, so the entry at a place is the only one of its node. -/
theorem Consistent.eraseIdx_eq_filter (consistent : s.Consistent) {place : Nat} {removed : Entry}
    (found : s.entries[place]? = some removed) :
    s.entries.eraseIdx place = s.entries.filter fun entry => entry.node ∉ [removed.node] := by
  obtain ⟨inside, here⟩ := List.getElem?_eq_some_iff.mp found
  have distinct : s.entries.Nodup := consistent.nodes_nodup.of_map _
  rw [← distinct.erase_getElem place inside, distinct.erase_eq_filter, here]
  apply List.filter_congr
  intro e listed
  have same : e = removed ↔ e.node = removed.node :=
    ⟨congrArg Entry.node, consistent.eq_of_node_eq listed (List.mem_of_getElem? found)⟩
  rw [Bool.eq_iff_iff]
  simp [same]

theorem Consistent.removeNode_eq (consistent : s.Consistent) {place : Nat} {removed : Entry}
    (found : s.entries[place]? = some removed) :
    s.removeNode place = .ok (s.without [removed.node], removed.node) := by
  have gone : (fun x => decide (x ≠ removed.node)) = fun x => decide (x ∉ [removed.node]) := by
    funext x
    simp
  have entries : (s.entries.eraseIdx place).map (fun entry => { entry with
      successors := entry.successors.erase removed.node
      predecessors := entry.predecessors.erase removed.node }) =
      (s.without [removed.node]).entries := by
    rw [consistent.eraseIdx_eq_filter found, Snapshot.without]
    apply List.map_congr_left
    intro e kept
    have listed := (List.mem_filter.mp kept).1
    rw [nodup_erase_eq_filter (consistent.successors_nodup e listed),
      nodup_erase_eq_filter (consistent.predecessors_nodup e listed), gone]
  have positions : s.positions.remove removed.node = (s.without [removed.node]).positions := by
    simp [Positions.remove, Snapshot.without]
  simp only [removeNode, entryAt_eq_ok_iff.mpr found, bind, Except.bind, pure, Except.pure, entries,
    positions]
  rfl

theorem Consistent.removeNode {place : Nat} {node : NodeId} (consistent : s.Consistent)
    (edited : s.removeNode place = .ok (s', node)) :
    s'.Consistent ∧ ∀ x ∈ s'.nodes, x ∈ s.nodes := by
  cases found : s.entries[place]? with
  | none => simp [Snapshot.removeNode, entryAt, found, bind, Except.bind] at edited
  | some removed =>
    rw [consistent.removeNode_eq found] at edited
    cases edited
    refine ⟨consistent.without _, ?_⟩
    intro x listed
    rw [nodes_without] at listed
    exact List.mem_of_mem_filter listed

@[simp] theorem nodes_renumber : s.renumber.nodes = s.nodes := by
  apply List.ext_getElem?
  intro i
  simp [renumber, nodes, Function.comp_def]

theorem nodeArcs_renumber : s.renumber.nodeArcs = s.nodeArcs := by
  unfold nodeArcs renumber
  rw [List.flatMap_def, List.flatMap_def]
  congr 1
  apply List.ext_getElem?
  intro i
  simp [Function.comp_def]

/-- Numbers noted anew, one after the other, stand as the entries do. -/
theorem foldl_note {entries : List Entry} (positions : Positions)
    (nodup : (positions.map (·.1) ++ entries.map (·.node)).Nodup) :
    entries.foldl (fun positions entry => positions.note entry.node entry.index) positions =
      positions ++ entries.map fun e => (e.node, e.index) := by
  induction entries generalizing positions with
  | nil => simp
  | cons e entries ih =>
    have fresh : positions.remove e.node = positions := by
      apply List.filter_eq_self.mpr
      intro position mem
      refine decide_eq_true fun same => ?_
      exact (List.nodup_append.mp nodup).2.2 _ (List.mem_map_of_mem mem) _ List.mem_cons_self same
    rw [List.foldl_cons, Positions.note, fresh, ih _ (by simpa using nodup)]
    simp

theorem Consistent.indexed_renumber (consistent : s.Consistent) : s.renumber.Indexed := by
  have renumbered {e : Entry} (listed : e ∈ s.renumber.entries) :
      ∃ old ∈ s.entries, ∃ index, e = { old with index } := by
    obtain ⟨i, inside, rfl⟩ := List.mem_mapIdx.mp listed
    exact ⟨_, List.getElem_mem inside, i, rfl⟩
  have nodup : s.renumber.nodes.Nodup := by
    rw [nodes_renumber]
    exact consistent.nodes_nodup
  refine
    { nodes_nodup := nodup, positions_eq := ?_, successors_nodup := ?_, predecessors_nodup := ?_
      mem_nodes_of_successor := ?_, mem_predecessors := ?_, index_eq := ?_, numbered := rfl }
  · exact foldl_note [] nodup
  · intro _ changed
    obtain ⟨e, listed, _, rfl⟩ := renumbered changed
    exact consistent.successors_nodup e listed
  · intro _ changed
    obtain ⟨e, listed, _, rfl⟩ := renumbered changed
    exact consistent.predecessors_nodup e listed
  · intro _ changed
    obtain ⟨e, listed, _, rfl⟩ := renumbered changed
    rw [nodes_renumber]
    exact consistent.mem_nodes_of_successor e listed
  · intro _ changed
    obtain ⟨e, listed, _, rfl⟩ := renumbered changed
    rw [nodeArcs_renumber]
    exact consistent.mem_predecessors e listed
  · intro _ i e found
    simp only [Snapshot.renumber, List.getElem?_mapIdx, Option.map_eq_some_iff] at found
    obtain ⟨_, -, rfl⟩ := found
    rfl

/-! ## Where the nodes come from -/

theorem mem_entries_of_mapM {places : List Nat} {entries : List Entry} {e : Entry}
    (found : places.mapM s.entryAt = .ok entries) (chosen : e ∈ entries) : e ∈ s.entries := by
  induction places generalizing entries with
  | nil =>
    cases found
    cases chosen
  | cons place places ih =>
    rw [List.mapM_cons] at found
    cases first : s.entryAt place with
    | error => simp [first, bind, Except.bind] at found
    | ok f =>
      cases others : places.mapM s.entryAt with
      | error => simp [first, others, bind, Except.bind] at found
      | ok more =>
        simp only [first, others, bind, Except.bind, pure, Except.pure, Except.ok.injEq] at found
        subst found
        rcases List.mem_cons.mp chosen with rfl | later
        · exact List.mem_of_getElem? (entryAt_eq_ok_iff.mp first)
        · exact ih others later

theorem exists_restrict_of_induced {places : List Nat} (taken : s.induced places = .ok s') :
    ∃ entries, s' = s.restrict entries ∧ ∀ e ∈ entries, e ∈ s.entries := by
  unfold induced at taken
  cases found : places.mapM s.entryAt with
  | error => simp [found, Except.map] at taken
  | ok entries =>
    simp only [found, Except.map, Except.ok.injEq] at taken
    exact ⟨entries, taken.symm, fun e chosen => mem_entries_of_mapM found chosen⟩

theorem consistent_union (snapshots : List Snapshot) : (union snapshots).Consistent := by
  rw [union_eq_build]
  exact consistent_build

theorem mem_nodes_union {snapshots : List Snapshot} :
    x ∈ (union snapshots).nodes ↔ ∃ s ∈ snapshots, x ∈ s.nodes := by
  simp [union_eq_build, unitCounts, mem_nodes]

theorem eq_of_removeExcusedArcs {t : Tree} {count : Nat}
    (edited : s.removeExcusedArcs t = .ok (s', count)) : s' = s.dropExcused t := by
  unfold removeExcusedArcs at edited
  split at edited
  · cases edited
    rfl
  · cases edited

end Snapshot

namespace Tree

variable {t : Tree} {id x : NodeId}

theorem lt_of_mem_walkVisible (seen : x ∈ t.walkVisible id) : x < t.size := by
  induction id using children_induction (t := t) with
  | step id ih =>
    rw [walkVisible_eq] at seen
    split at seen
    · cases seen
    · obtain ⟨child, registered, seen⟩ := List.mem_flatMap.mp seen
      split at seen
      · cases seen
      · rcases List.mem_append.mp seen with below | here
        · exact ih child registered below
        · rw [List.mem_singleton.mp here]
          exact (lt_of_mem_children registered).2

/-- No change takes a node away. -/
theorem size_le_perform (t : Tree) (change : Change) : t.size ≤ (t.perform change).size := by
  have created : ∀ kind parent path, t.size ≤ (t.create kind parent path).1.size := by
    intro kind parent path
    apply create_induction (P := fun grown => t.size ≤ grown.size)
    · intro _ _ _ _ _ larger _ added
      rw [added.size]
      exact Nat.le_succ_of_le larger
    · exact Nat.le_refl _
  cases change with
  | createContainer parent path => exact created .container parent path
  | createLeaf parent path => exact created .leaf parent path
  | link source target =>
    rcases t.perform_link source target with same | added
    · exact Nat.le_of_eq (congrArg size same).symm
    · exact Nat.le_of_eq added.shape.size.symm
  | recordMissing leaf name =>
    rcases t.perform_recordMissing leaf name with same | noted
    · exact Nat.le_of_eq (congrArg size same).symm
    · rw [noted]
      exact Nat.le_of_eq (sameShape_noteMissing leaf name).size.symm
  | setMode id mode => exact Nat.le_of_eq (sameShape_setMode id mode).size.symm

end Tree

namespace Snapshot

variable {s s' : Snapshot} {t : Tree} {x : NodeId}

/-- The snapshots there can be beside a tree: taken of it, made from others, edited, or kept while
the tree itself changes. No step asks whether the numbers are up to date. -/
inductive Derived : Tree → Snapshot → Prop where
  | empty {t : Tree} : Derived t empty
  | ofTree {t : Tree} : Derived t (ofTree t)
  | ofNodes {t : Tree} {nodes : List NodeId} (known : ∀ x ∈ nodes, x < t.size) :
      Derived t (ofNodes t nodes)
  | induced {t : Tree} {s s' : Snapshot} {places : List Nat} :
      Derived t s → s.induced places = .ok s' → Derived t s'
  | union {t : Tree} {snapshots : List Snapshot} :
      (∀ s ∈ snapshots, Derived t s) → Derived t (union snapshots)
  | cyclicPart {t : Tree} {s : Snapshot} : Derived t s → Derived t s.cyclicPart
  | addArc {t : Tree} {s s' : Snapshot} {i j : Nat} {added : Bool} :
      Derived t s → s.addArc i j = .ok (s', added) → Derived t s'
  | removeArc {t : Tree} {s s' : Snapshot} {i j : Nat} {removed : Bool} :
      Derived t s → s.removeArc i j = .ok (s', removed) → Derived t s'
  | removeNode {t : Tree} {s s' : Snapshot} {i : Nat} {node : NodeId} :
      Derived t s → s.removeNode i = .ok (s', node) → Derived t s'
  | renumber {t : Tree} {s : Snapshot} : Derived t s → Derived t s.renumber
  | removeExcused {t judged : Tree} {s s' : Snapshot} {count : Nat} :
      Derived t s → s.removeExcusedArcs judged = .ok (s', count) → Derived t s'
  | change {t : Tree} {s : Snapshot} (change : Tree.Change) :
      Derived t s → Derived (t.perform change) s

/-- Consistency and nodes of the tree, whatever was done. -/
theorem Derived.spec (derived : Derived t s) : s.Consistent ∧ ∀ x ∈ s.nodes, x < t.size := by
  induction derived with
  | empty =>
    have built : (build 0 [] []).Consistent := consistent_build
    refine ⟨built, ?_⟩
    intro x listed
    cases listed
  | @ofTree t =>
    refine ⟨(indexed_ofTree t).toConsistent, ?_⟩
    intro x listed
    rw [Snapshot.ofTree, nodes_ofNodes, List.mem_eraseDups] at listed
    exact Tree.lt_of_mem_walkVisible (List.mem_filter.mp listed).1
  | ofNodes known =>
    refine ⟨(indexed_ofNodes _ _).toConsistent, ?_⟩
    intro x listed
    rw [nodes_ofNodes, List.mem_eraseDups] at listed
    exact known x listed
  | induced _ taken ih =>
    obtain ⟨entries, rfl, chosen⟩ := exists_restrict_of_induced taken
    refine ⟨(indexed_restrict _ _).toConsistent, ?_⟩
    intro x listed
    obtain ⟨e, mem, node⟩ := mem_nodes_restrict.mp listed
    exact ih.2 x (mem_nodes.mpr ⟨e, chosen e mem, node⟩)
  | union _ ih =>
    refine ⟨consistent_union _, ?_⟩
    intro x listed
    obtain ⟨s, part, listed⟩ := mem_nodes_union.mp listed
    exact (ih s part).2 x listed
  | cyclicPart _ ih =>
    refine ⟨(indexed_cyclicPart _).toConsistent, ?_⟩
    intro x listed
    exact ih.2 x (mem_nodes_cyclicPart listed)
  | addArc _ edited ih =>
    obtain ⟨consistent, nodes⟩ := ih.1.addArc edited
    rw [nodes]
    exact ⟨consistent, ih.2⟩
  | removeArc _ edited ih =>
    obtain ⟨consistent, nodes⟩ := ih.1.removeArc edited
    rw [nodes]
    exact ⟨consistent, ih.2⟩
  | removeNode _ edited ih =>
    obtain ⟨consistent, nodes⟩ := ih.1.removeNode edited
    exact ⟨consistent, fun x listed => ih.2 x (nodes x listed)⟩
  | renumber _ ih =>
    rw [nodes_renumber]
    exact ⟨ih.1.indexed_renumber.toConsistent, ih.2⟩
  | removeExcused _ edited ih =>
    rw [eq_of_removeExcusedArcs edited, dropExcused, ih.1.unlinkAll_eq, nodes_filterArcs]
    exact ⟨ih.1.filterArcs _, ih.2⟩
  | change change _ ih =>
    refine ⟨ih.1, ?_⟩
    intro x listed
    exact Nat.lt_of_lt_of_le (ih.2 x listed) (Tree.size_le_perform _ change)

theorem Derived.indexed (derived : Derived t s) (numbered : s.numbered = true) : s.Indexed :=
  ⟨derived.spec.1, numbered⟩

/-! ## Questions by number -/

section Numbers

variable (indexed : s.Indexed) (numbered : s.numbered = true) {i j : Fin s.size}

include numbered in
theorem indexOf_eq (x : NodeId) : s.indexOf x = .ok (s.place? x) := by
  simp [indexOf, requireNumbered, numbered, bind, Except.bind, pure, Except.pure]

theorem entryAt_eq (i : Fin s.size) : s.entryAt i = .ok (s.entries.get i) := by
  simp [entryAt]

/-- The arcs by number, listed as the arcs by node are. -/
def numberedArcs (s : Snapshot) : List (Fin s.size × Fin s.size) :=
  (List.finRange s.size).flatMap fun i => ((s.digraph .forward).successors i).map fun j => (i, j)

include numbered in
theorem arcs_eq : s.arcs = .ok s.numberedArcs := by
  simp [arcs, requireNumberedEntries_eq numbered, numberedArcs, bind, Except.bind, pure,
    Except.pure]

include indexed

theorem mem_numberedArcs : (i, j) ∈ s.numberedArcs ↔ s.Arc (s.nodeAt i) (s.nodeAt j) := by
  rw [← indexed.digraph_arc_iff, Digraph.Arc]
  simp [numberedArcs]

theorem map_nodeAt_places {listed : List NodeId} (known : ∀ x ∈ listed, x ∈ s.nodes) :
    (listed.filterMap s.place?).map s.nodeAt = listed := by
  have found : ∀ x ∈ listed, (s.place? x).map s.nodeAt = some x := by
    intro x mem
    obtain ⟨i, here⟩ := exists_nodeAt (known x mem)
    rw [indexed.place?_eq_some_iff.mpr here, Option.map_some, here]
  rw [List.map_filterMap, List.filterMap_congr found, List.filterMap_some]

theorem map_nodeAt_numberedArcs :
    (s.numberedArcs.map fun arc => (s.nodeAt arc.1, s.nodeAt arc.2)) = s.nodeArcs := by
  have row : ∀ i : Fin s.size,
      (((s.digraph .forward).successors i).map fun j => (i, j)).map
          (fun arc => (s.nodeAt arc.1, s.nodeAt arc.2)) =
        (s.entries.get i).successors.map fun target => ((s.entries.get i).node, target) := by
    intro i
    have places := map_nodeAt_places indexed
      (indexed.mem_nodes_of_successor _ (entry_mem i))
    conv_rhs => rw [← places]
    rw [digraph, Digraph.successors_ofFn, List.map_map, List.map_map]
    rfl
  rw [numberedArcs, List.map_flatMap]
  simp only [row]
  rw [nodeArcs]
  conv_rhs => rw [← List.map_get_finRange s.entries]
  rw [List.flatMap_map]

theorem numberedArcs_nodup : s.numberedArcs.Nodup := by
  have nodup := indexed.nodeArcs_nodup
  rw [← map_nodeAt_numberedArcs indexed] at nodup
  exact nodup.of_map _

theorem length_numberedArcs : s.numberedArcs.length = s.arcCount := by
  have length := congrArg List.length (map_nodeAt_numberedArcs indexed)
  rw [List.length_map, nodeArcs, ← total_map_length] at length
  simpa [arcCount] using length

theorem exists_hasArc (i j : Fin s.size) :
    ∃ present, s.hasArc i j = .ok present ∧ (present = true ↔ (i, j) ∈ s.numberedArcs) := by
  refine ⟨(s.entries.get i).successors.contains (s.entries.get j).node, ?_, ?_⟩
  · simp only [hasArc, entryAt_eq, bind, Except.bind, pure, Except.pure]
  · rw [mem_numberedArcs indexed, List.contains_iff_mem]
    exact indexed.mem_successors (entry_mem i)

end Numbers

/-! ## The invariant of a snapshot -/

/-- However a snapshot came about, its entries agree on their arcs, and once it is numbered so do
the questions by number. -/
theorem derived_isConsistent (derived : Derived t s) :
    s.nodes.Nodup ∧ (∀ x ∈ s.nodes, x < t.size) ∧
    (∀ x, s.contains x = true ↔ ∃ e ∈ s.entries, e.node = x) ∧
    (∀ e ∈ s.entries, (∀ x ∈ e.successors, x ∈ s.nodes) ∧ ∀ x ∈ e.predecessors, x ∈ s.nodes) ∧
    (∀ e ∈ s.entries, ∀ f ∈ s.entries, f.node ∈ e.successors ↔ e.node ∈ f.predecessors) ∧
    (s.numbered = true →
      (∀ i : Fin s.size, (s.entries.get i).index = i) ∧
      (∀ x k, s.positions.lookup x = some k ↔ s.nodes[k]? = some x) ∧
      (∀ x i, s.indexOf x = .ok (some i) ↔ (s.entries.get i).node = x) ∧
      (∀ x, s.indexOf x = .ok none ↔ x ∉ s.nodes) ∧
      ∃ arcs, s.arcs = .ok arcs ∧ arcs.Nodup ∧ arcs.length = s.arcCount ∧
        ∀ i j : Fin s.size,
          ∃ present, s.hasArc i j = .ok present ∧ (present = true ↔ (i, j) ∈ arcs)) := by
  obtain ⟨consistent, known⟩ := derived.spec
  refine ⟨consistent.nodes_nodup, known, ?_, ?_, ?_, ?_⟩
  · intro x
    rw [consistent.contains_iff, mem_nodes]
  · intro e listed
    refine ⟨consistent.mem_nodes_of_successor e listed, ?_⟩
    intro x predecessor
    exact source_mem ((consistent.mem_predecessors e listed x).mp predecessor)
  · intro e listedE f listedF
    rw [consistent.mem_successors listedE, consistent.mem_predecessors f listedF]
  · intro numbered
    have indexed := derived.indexed numbered
    refine ⟨?_, fun x k => indexed.lookup_eq_some_iff, ?_, ?_, s.numberedArcs, arcs_eq numbered,
      numberedArcs_nodup indexed, length_numberedArcs indexed, exists_hasArc indexed⟩
    · intro i
      exact consistent.index_eq numbered i _ (by simp)
    · intro x i
      rw [indexOf_eq numbered, Except.ok.injEq, indexed.place?_eq_some_iff]
      rfl
    · intro x
      rw [indexOf_eq numbered, Except.ok.injEq, indexed.place?_eq_none_iff]

/-- What is left of a snapshot of three nodes when the first is taken out: the numbers are old. -/
def gapped : Snapshot := ⟨[⟨5, 1, 2, [], []⟩, ⟨9, 2, 1, [9], [9]⟩], [(5, 1), (9, 2)], 17, false⟩

/-- The same with one more arc, before it is renumbered. -/
def rejoined : Snapshot :=
  ⟨[⟨5, 1, 2, [], [9]⟩, ⟨9, 2, 1, [9, 5], [9]⟩], [(5, 1), (9, 2)], 17, false⟩

theorem derived_isConsistent_rejoined :
    (ofTree layered).removeNode 0 = .ok (gapped, 2) ∧ gapped.addArc 1 0 = .ok (rejoined, true) ∧
    Derived layered rejoined.renumber ∧ rejoined.renumber.nodes.Nodup ∧
    (∀ i : Fin rejoined.renumber.size, (rejoined.renumber.entries.get i).index = i) ∧
    ∃ arcs, rejoined.renumber.arcs = .ok arcs ∧ arcs.Nodup ∧
      arcs.length = rejoined.renumber.arcCount ∧ rejoined.renumber.arcCount = 2 ∧
      ∀ i j : Fin rejoined.renumber.size, ∃ present,
        rejoined.renumber.hasArc i j = .ok present ∧ (present = true ↔ (i, j) ∈ arcs) := by
  have removed : (ofTree layered).removeNode 0 = .ok (gapped, 2) := by decide +kernel
  have added : gapped.addArc 1 0 = .ok (rejoined, true) := by decide +kernel
  have derived : Derived layered rejoined.renumber :=
    .renumber (.addArc (.removeNode .ofTree removed) added)
  obtain ⟨nodup, -, -, -, -, numbers⟩ := derived_isConsistent derived
  obtain ⟨index, -, -, -, arcs, found, distinct, count, present⟩ := numbers rfl
  exact ⟨removed, added, derived, nodup, index, arcs, found, distinct, count, by decide +kernel,
    present⟩

end Snapshot

end ClassCoupling
