import ClassCoupling.Snapshot.Basic
import Mathlib.Data.List.Nodup

/-!
# Consistent snapshots

A snapshot lists each node once, its arcs stay among its nodes, both ends of an arc record it, and the
positions noted for its nodes are exactly the numbers of its entries. While it is numbered, these are
the places of the entries as well, and an arc is changed where its ends are.
-/

namespace ClassCoupling

/-! ## Lists without repetition -/

section EraseDups

universe u
variable {α : Type u} [BEq α] [LawfulBEq α]

theorem nodup_eraseDups (xs : List α) : xs.eraseDups.Nodup := by
  induction h : xs.length using Nat.strongRecOn generalizing xs with
  | ind n ih =>
    cases xs with
    | nil => simp
    | cons x xs =>
      rw [List.eraseDups_cons, List.nodup_cons, List.mem_eraseDups]
      refine ⟨by simp, ih _ ?_ _ rfl⟩
      have := List.length_filter_le (fun b => !b == x) xs
      rw [List.length_cons] at h
      omega

theorem eraseDups_eq_self {xs : List α} (nodup : xs.Nodup) : xs.eraseDups = xs := by
  induction xs with
  | nil => rfl
  | cons x xs ih =>
    obtain ⟨new, nodup⟩ := List.nodup_cons.mp nodup
    have all : xs.filter (fun b => !b == x) = xs := by
      refine List.filter_eq_self.mpr fun y mem => ?_
      have : y ≠ x := fun same => new (same ▸ mem)
      simpa using this
    rw [List.eraseDups_cons, all, ih nodup]

end EraseDups

/-! ## Pairs grouped by their first part -/

section Pairs

universe u
variable {α : Type u} {key : α → NodeId} {f : α → List NodeId} {xs : List α}

theorem nodup_pairs (nodup : (xs.map key).Nodup) (each : ∀ x ∈ xs, (f x).Nodup) :
    (xs.flatMap fun x => (f x).map fun v => (key x, v)).Nodup := by
  refine List.nodup_flatMap.mpr ⟨?_, ?_⟩
  · intro x mem
    exact (each x mem).map fun a b same => congrArg Prod.snd same
  · refine (List.pairwise_map.mp nodup).imp ?_
    intro x y ne pair first second
    obtain ⟨_, -, rfl⟩ := List.mem_map.mp first
    obtain ⟨_, -, same⟩ := List.mem_map.mp second
    exact ne (congrArg Prod.fst same).symm

theorem filter_pairs {x : α} (nodup : (xs.map key).Nodup) (mem : x ∈ xs) :
    (xs.flatMap fun y => (f y).map fun v => (key y, v)).filter (·.1 = key x) =
      (f x).map fun v => (key x, v) := by
  induction xs with
  | nil => cases mem
  | cons y xs ih =>
    obtain ⟨fresh, nodup⟩ := List.nodup_cons.mp nodup
    rw [List.flatMap_cons, List.filter_append, List.filter_map]
    cases mem with
    | head =>
      have others : (xs.flatMap fun y => (f y).map fun v => (key y, v)).filter
          (·.1 = key x) = [] := by
        apply List.filter_eq_nil_iff.mpr
        intro pair listed
        obtain ⟨z, other, target⟩ := List.mem_flatMap.mp listed
        obtain ⟨_, -, rfl⟩ := List.mem_map.mp target
        have ne : key z ≠ key x := fun same => fresh (List.mem_map.mpr ⟨z, other, same⟩)
        simpa using ne
      rw [others]
      simp [Function.comp_def]
    | tail _ mem =>
      have ne : key y ≠ key x := fun same => fresh (List.mem_map.mpr ⟨x, mem, same.symm⟩)
      rw [ih nodup mem]
      simp [Function.comp_def, ne]

theorem lookup_pairs {β : Type u} (value : α → β) {x : α} (nodup : (xs.map key).Nodup)
    (mem : x ∈ xs) : (xs.map fun y => (key y, value y)).lookup (key x) = some (value x) := by
  induction xs with
  | nil => cases mem
  | cons y xs ih =>
    obtain ⟨fresh, nodup⟩ := List.nodup_cons.mp nodup
    cases mem with
    | head => simp
    | tail _ mem =>
      have ne : key x ≠ key y := fun same => fresh (List.mem_map.mpr ⟨x, mem, same⟩)
      rw [List.map_cons, List.lookup_cons, beq_false_of_ne ne]
      exact ih nodup mem

end Pairs

namespace Snapshot

variable {s : Snapshot} {u v x : NodeId}

theorem mem_nodes : x ∈ s.nodes ↔ ∃ e ∈ s.entries, e.node = x := List.mem_map

theorem getElem?_nodes {i : Nat} : s.nodes[i]? = some x ↔ ∃ e, s.entries[i]? = some e ∧ e.node = x := by
  rw [nodes, List.getElem?_map, Option.map_eq_some_iff]

theorem mem_nodeArcs : (u, v) ∈ s.nodeArcs ↔ ∃ e ∈ s.entries, e.node = u ∧ v ∈ e.successors := by
  simp only [nodeArcs, List.mem_flatMap, List.mem_map, Prod.mk.injEq]
  constructor
  · rintro ⟨e, mem, _, target, node, rfl⟩
    exact ⟨e, mem, node, target⟩
  · rintro ⟨e, mem, node, target⟩
    exact ⟨e, mem, v, target, node, rfl⟩

structure Consistent (s : Snapshot) : Prop where
  nodes_nodup : s.nodes.Nodup
  positions_eq : s.positions = s.entries.map fun e => (e.node, e.index)
  successors_nodup : ∀ e ∈ s.entries, e.successors.Nodup
  predecessors_nodup : ∀ e ∈ s.entries, e.predecessors.Nodup
  mem_nodes_of_successor : ∀ e ∈ s.entries, ∀ x ∈ e.successors, x ∈ s.nodes
  mem_predecessors : ∀ e ∈ s.entries, ∀ x, x ∈ e.predecessors ↔ (x, e.node) ∈ s.nodeArcs
  index_eq : s.numbered = true → ∀ (i : Nat) (e : Entry), s.entries[i]? = some e → e.index = i

namespace Consistent

theorem eq_of_node_eq (consistent : s.Consistent) {e f : Entry} (he : e ∈ s.entries)
    (hf : f ∈ s.entries) (same : e.node = f.node) : e = f :=
  List.inj_on_of_nodup_map consistent.nodes_nodup he hf same

theorem mem_successors (consistent : s.Consistent) {e : Entry} (he : e ∈ s.entries) :
    x ∈ e.successors ↔ (e.node, x) ∈ s.nodeArcs := by
  rw [mem_nodeArcs]
  constructor
  · intro mem
    exact ⟨e, he, rfl, mem⟩
  · rintro ⟨f, hf, same, mem⟩
    rw [consistent.eq_of_node_eq he hf same.symm]
    exact mem

theorem target_mem (consistent : s.Consistent) (arc : (u, v) ∈ s.nodeArcs) : v ∈ s.nodes := by
  obtain ⟨e, he, -, mem⟩ := mem_nodeArcs.mp arc
  exact consistent.mem_nodes_of_successor e he v mem

/-- Numbers may be out of date, but never noted for a node without an entry or missing for one. -/
theorem contains_iff (consistent : s.Consistent) : s.contains x = true ↔ x ∈ s.nodes := by
  rw [contains, consistent.positions_eq, List.lookup_isSome_iff, mem_nodes]
  constructor
  · rintro ⟨_, noted, same⟩
    obtain ⟨e, mem, rfl⟩ := List.mem_map.mp noted
    exact ⟨e, mem, (eq_of_beq same).symm⟩
  · rintro ⟨e, mem, rfl⟩
    exact ⟨_, List.mem_map_of_mem mem, beq_self_eq_true _⟩

end Consistent

theorem source_mem (arc : (u, v) ∈ s.nodeArcs) : u ∈ s.nodes := by
  obtain ⟨e, he, node, -⟩ := mem_nodeArcs.mp arc
  exact mem_nodes.mpr ⟨e, he, node⟩

/-- Consistent, and every number in its place. -/
structure Indexed (s : Snapshot) : Prop extends s.Consistent where
  numbered : s.numbered = true

theorem Indexed.lookup_eq_some_iff (indexed : s.Indexed) {i : Nat} :
    s.positions.lookup x = some i ↔ s.nodes[i]? = some x := by
  have noted : ∀ {k e}, s.entries[k]? = some e → s.positions.lookup e.node = some k := by
    intro k e found
    rw [indexed.positions_eq, lookup_pairs _ indexed.nodes_nodup (List.mem_of_getElem? found),
      indexed.index_eq indexed.numbered k e found]
  constructor
  · intro found
    have listed : x ∈ s.nodes := by
      rw [← indexed.contains_iff, contains, found]
      rfl
    obtain ⟨e, mem, rfl⟩ := mem_nodes.mp listed
    obtain ⟨k, place⟩ := List.mem_iff_getElem?.mp mem
    rw [noted place, Option.some.injEq] at found
    exact getElem?_nodes.mpr ⟨e, found ▸ place, rfl⟩
  · intro place
    obtain ⟨e, found, rfl⟩ := getElem?_nodes.mp place
    exact noted found

/-! ## Dropping arcs -/

/-- Keeps the arcs that pass the test. -/
def filterArcs (keep : NodeId → NodeId → Bool) (s : Snapshot) : Snapshot :=
  { s with
    entries := s.entries.map fun entry => { entry with
      successors := entry.successors.filter fun target => keep entry.node target
      predecessors := entry.predecessors.filter fun source => keep source entry.node } }

@[simp] theorem nodes_filterArcs (keep : NodeId → NodeId → Bool) :
    (s.filterArcs keep).nodes = s.nodes := by
  simp [filterArcs, nodes, Function.comp_def]

theorem mem_nodeArcs_filterArcs (keep : NodeId → NodeId → Bool) :
    (u, v) ∈ (s.filterArcs keep).nodeArcs ↔ (u, v) ∈ s.nodeArcs ∧ keep u v = true := by
  simp only [mem_nodeArcs, filterArcs, List.mem_map]
  constructor
  · rintro ⟨_, ⟨e, he, rfl⟩, rfl, mem⟩
    obtain ⟨mem, kept⟩ := List.mem_filter.mp mem
    exact ⟨⟨e, he, rfl, mem⟩, kept⟩
  · rintro ⟨⟨e, he, rfl, mem⟩, kept⟩
    exact ⟨_, ⟨e, he, rfl⟩, rfl, List.mem_filter.mpr ⟨mem, kept⟩⟩

theorem filterArcs_filterArcs (keep also : NodeId → NodeId → Bool) :
    (s.filterArcs keep).filterArcs also = s.filterArcs fun u v => also u v && keep u v := by
  simp [filterArcs, List.filter_filter, Function.comp_def]

namespace Consistent

variable (consistent : s.Consistent)
include consistent

theorem filterArcs (keep : NodeId → NodeId → Bool) : (s.filterArcs keep).Consistent := by
  refine
    { nodes_nodup := by
        rw [nodes_filterArcs]
        exact consistent.nodes_nodup
      positions_eq := ?_, successors_nodup := ?_, predecessors_nodup := ?_
      mem_nodes_of_successor := ?_, mem_predecessors := ?_, index_eq := ?_ }
  · simp [Snapshot.filterArcs, consistent.positions_eq, Function.comp_def]
  · intro _ changed
    obtain ⟨e, he, rfl⟩ := List.mem_map.mp changed
    exact (consistent.successors_nodup e he).filter _
  · intro _ changed
    obtain ⟨e, he, rfl⟩ := List.mem_map.mp changed
    exact (consistent.predecessors_nodup e he).filter _
  · intro _ changed x mem
    obtain ⟨e, he, rfl⟩ := List.mem_map.mp changed
    rw [nodes_filterArcs]
    exact consistent.mem_nodes_of_successor e he x (List.mem_filter.mp mem).1
  · intro _ changed x
    obtain ⟨e, he, rfl⟩ := List.mem_map.mp changed
    rw [mem_nodeArcs_filterArcs, List.mem_filter, consistent.mem_predecessors e he]
  · intro numbered i e h
    simp only [Snapshot.filterArcs, List.getElem?_map, Option.map_eq_some_iff] at h
    obtain ⟨e, h, rfl⟩ := h
    exact consistent.index_eq numbered i e h

theorem filterArcs_congr {keep other : NodeId → NodeId → Bool}
    (same : ∀ u v, (u, v) ∈ s.nodeArcs → keep u v = other u v) :
    s.filterArcs keep = s.filterArcs other := by
  have entries : (s.filterArcs keep).entries = (s.filterArcs other).entries := by
    apply List.map_congr_left
    intro e listed
    congr 1
    · apply List.filter_congr
      intro x mem
      exact same _ _ ((consistent.mem_successors listed).mp mem)
    · apply List.filter_congr
      intro x mem
      exact same _ _ ((consistent.mem_predecessors e listed x).mp mem)
  exact congrArg (fun entries => { s with entries }) entries

theorem filterArcs_eq_self {keep : NodeId → NodeId → Bool}
    (all : ∀ u v, (u, v) ∈ s.nodeArcs → keep u v = true) : s.filterArcs keep = s := by
  have same : s.filterArcs keep = s.filterArcs fun _ _ => true := consistent.filterArcs_congr all
  rw [same]
  simp [Snapshot.filterArcs]

end Consistent

/-! ## Arcs by place and by node -/

/-- Changes the ends of one arc wherever its nodes stand. -/
def changeArc (change : List NodeId → NodeId → List NodeId) (source target : NodeId)
    (s : Snapshot) : Snapshot :=
  { s with
    entries := s.entries.map fun entry => { entry with
      successors :=
        if entry.node = source then change entry.successors target else entry.successors
      predecessors :=
        if entry.node = target then change entry.predecessors source else entry.predecessors } }

theorem modify_eq_map {entries : List Entry} {i : Nat} {e : Entry}
    (nodup : (entries.map (·.node)).Nodup) (found : entries[i]? = some e) (f : Entry → Entry) :
    entries.modify i f = entries.map fun x => if x.node = e.node then f x else x := by
  apply List.ext_getElem?
  intro k
  rw [List.getElem?_modify, List.getElem?_map]
  cases other : entries[k]? with
  | none => rfl
  | some x =>
    have here : i = k ↔ x.node = e.node := by
      constructor
      · rintro rfl
        rw [Option.some.inj (found.symm.trans other)]
      · intro same
        apply (List.getElem?_inj (by simpa using (List.getElem?_eq_some_iff.mp found).1) nodup).mp
        rw [List.getElem?_map, List.getElem?_map, found, other]
        exact congrArg some same.symm
    by_cases same : x.node = e.node <;> simp [here, same]

/-- Each node stands once, so an arc between two places is the arc between their nodes. -/
theorem updateArc_eq_changeArc {i j : Nat} {e f : Entry} (nodup : s.nodes.Nodup)
    (source : s.entries[i]? = some e) (target : s.entries[j]? = some f)
    (change : List NodeId → NodeId → List NodeId) :
    s.updateArc change i j e.node f.node = s.changeArc change e.node f.node := by
  have left : s.entries.modify i (fun entry =>
        { entry with successors := change entry.successors f.node }) =
      s.entries.map fun entry => { entry with
        successors := if entry.node = e.node then change entry.successors f.node
          else entry.successors } := by
    rw [modify_eq_map nodup source]
    apply List.map_congr_left
    intro entry _
    split <;> rfl
  dsimp only [updateArc, changeArc]
  rw [left, modify_eq_map (by simpa [nodes, Function.comp_def] using nodup)
    ((List.getElem?_map ..).trans (congrArg _ target)), List.map_map]
  congr 1
  apply List.map_congr_left
  intro entry _
  simp only [Function.comp_apply]
  split <;> rfl

theorem entryAt_eq_ok_iff {i : Nat} {e : Entry} : s.entryAt i = .ok e ↔ s.entries[i]? = some e := by
  unfold entryAt
  cases s.entries[i]? <;> simp

theorem nodup_erase_eq_filter {nodes : List NodeId} (nodup : nodes.Nodup) (gone : NodeId) :
    nodes.erase gone = nodes.filter (· ≠ gone) := by
  rw [nodup.erase_eq_filter]
  apply List.filter_congr
  intro x _
  rw [Bool.eq_iff_iff]
  simp

namespace Consistent

variable (consistent : s.Consistent)
include consistent

theorem changeArc_erase (source target : NodeId) :
    s.changeArc List.erase source target = s.filterArcs fun u v => ¬ (u = source ∧ v = target) := by
  have entries : (s.changeArc List.erase source target).entries =
      (s.filterArcs fun u v => ¬ (u = source ∧ v = target)).entries := by
    apply List.map_congr_left
    intro e listed
    rw [nodup_erase_eq_filter (consistent.successors_nodup e listed),
      nodup_erase_eq_filter (consistent.predecessors_nodup e listed)]
    congr 1
    · by_cases here : e.node = source <;> simp [here]
    · by_cases here : e.node = target <;> simp [here]
  exact congrArg (fun entries => { s with entries }) entries

/-- Taking out an arc between two places drops the arc between the nodes there. -/
theorem edited_removeArc (i j : Nat) :
    s.edited (s.removeArc i j) =
      s.filterArcs fun u v => ¬ (s.nodes[i]? = some u ∧ s.nodes[j]? = some v) := by
  have absent : s.nodes[i]? = none ∨ s.nodes[j]? = none →
      (s.filterArcs fun u v => ¬ (s.nodes[i]? = some u ∧ s.nodes[j]? = some v)) = s := by
    intro missing
    apply consistent.filterArcs_eq_self
    rcases missing with none | none <;> simp [none]
  cases source : s.entries[i]? with
  | none =>
    rw [absent (.inl (by simp [nodes, source]))]
    simp [removeArc, entryAt, source, edited, bind, Except.bind]
  | some e =>
    cases target : s.entries[j]? with
    | none =>
      rw [absent (.inr (by simp [nodes, target]))]
      simp [removeArc, entryAt, source, target, edited, bind, Except.bind]
    | some f =>
      have ends : s.nodes[i]? = some e.node ∧ s.nodes[j]? = some f.node :=
        ⟨getElem?_nodes.mpr ⟨e, source, rfl⟩, getElem?_nodes.mpr ⟨f, target, rfl⟩⟩
      simp only [ends, Option.some.injEq, eq_comm (a := e.node), eq_comm (a := f.node)]
      by_cases present : f.node ∈ e.successors
      · rw [← consistent.changeArc_erase,
          ← updateArc_eq_changeArc consistent.nodes_nodup source target]
        simp [removeArc, entryAt, source, target, present, edited, bind, Except.bind, pure,
          Except.pure]
      · rw [consistent.filterArcs_eq_self]
        · simp [removeArc, entryAt, source, target, present, edited, bind, Except.bind, pure,
            Except.pure]
        · intro u v arc
          refine decide_eq_true ?_
          rintro ⟨rfl, rfl⟩
          exact present ((consistent.mem_successors (List.mem_of_getElem? source)).mpr arc)

/-- Taking out arcs one after the other drops all arcs between the nodes at their places. -/
theorem unlinkAll_eq (arcs : List (Nat × Nat)) :
    s.unlinkAll arcs = s.filterArcs fun u v =>
      !arcs.any fun arc => s.nodes[arc.1]? = some u ∧ s.nodes[arc.2]? = some v := by
  induction arcs generalizing s with
  | nil => simp [unlinkAll, consistent.filterArcs_eq_self]
  | cons arc arcs ih =>
    have rest := ih (consistent.filterArcs fun u v =>
      ¬ (s.nodes[arc.1]? = some u ∧ s.nodes[arc.2]? = some v))
    rw [unlinkAll, List.foldl_cons, consistent.edited_removeArc]
    refine rest.trans ?_
    rw [filterArcs_filterArcs]
    congr 1
    funext u v
    simp [Bool.and_comm]

end Consistent

theorem Consistent.unlinkAll (consistent : s.Consistent) (arcs : List (Nat × Nat)) :
    (s.unlinkAll arcs).Consistent := by
  rw [consistent.unlinkAll_eq]
  exact consistent.filterArcs _

namespace Indexed

variable (indexed : s.Indexed)
include indexed

theorem unlinkAll (arcs : List (Nat × Nat)) : (s.unlinkAll arcs).Indexed := by
  refine ⟨indexed.toConsistent.unlinkAll arcs, ?_⟩
  rw [indexed.unlinkAll_eq]
  exact indexed.numbered

theorem mem_placedArcs {i j : Nat} : (i, j) ∈ s.placedArcs ↔
    ∃ u v, s.nodes[i]? = some u ∧ s.nodes[j]? = some v ∧ (u, v) ∈ s.nodeArcs := by
  simp only [placedArcs, List.mem_flatMap, List.mem_map, List.mem_filterMap, Prod.mk.injEq]
  constructor
  · rintro ⟨⟨e, k⟩, placed, _, ⟨v, mem, noted⟩, rfl, rfl⟩
    have found : s.entries[k]? = some e := List.mk_mem_zipIdx_iff_getElem?.mp placed
    exact ⟨e.node, v, getElem?_nodes.mpr ⟨e, found, rfl⟩, indexed.lookup_eq_some_iff.mp noted,
      mem_nodeArcs.mpr ⟨e, List.mem_of_getElem? found, rfl, mem⟩⟩
  · rintro ⟨u, v, source, target, arc⟩
    obtain ⟨e, found, rfl⟩ := getElem?_nodes.mp source
    refine ⟨(e, i), List.mk_mem_zipIdx_iff_getElem?.mpr found, j, ⟨v, ?_, ?_⟩, rfl, rfl⟩
    · exact (indexed.mem_successors (List.mem_of_getElem? found)).mpr arc
    · exact indexed.lookup_eq_some_iff.mpr target

/-- Taking out the arcs whose places fail a test keeps those whose nodes pass it. -/
theorem unlinkAll_filter {drop : Nat × Nat → Bool} {keep : NodeId → NodeId → Bool}
    (agree : ∀ i j u v, s.nodes[i]? = some u → s.nodes[j]? = some v → (u, v) ∈ s.nodeArcs →
      (drop (i, j) = true ↔ keep u v = false)) :
    s.unlinkAll (s.placedArcs.filter drop) = s.filterArcs keep := by
  rw [indexed.unlinkAll_eq]
  apply indexed.filterArcs_congr
  intro u v arc
  obtain ⟨i, source⟩ := List.mem_iff_getElem?.mp (source_mem arc)
  obtain ⟨j, target⟩ := List.mem_iff_getElem?.mp (indexed.target_mem arc)
  rw [Bool.eq_iff_iff, Bool.not_eq_true', ← Bool.not_eq_true, not_iff_comm, Bool.not_eq_true,
    ← agree i j u v source target arc, List.any_eq_true]
  constructor
  · intro dropped
    exact ⟨(i, j), List.mem_filter.mpr ⟨indexed.mem_placedArcs.mpr ⟨u, v, source, target, arc⟩,
      dropped⟩, decide_eq_true ⟨source, target⟩⟩
  · rintro ⟨⟨k, m⟩, listed, there⟩
    obtain ⟨atK, atM⟩ := of_decide_eq_true there
    rw [agree i j u v source target arc, ← agree k m u v atK atM arc]
    exact (List.mem_filter.mp listed).2

end Indexed

end Snapshot

end ClassCoupling
