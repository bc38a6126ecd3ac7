import ClassCoupling.Proofs.Digraph.Components
import ClassCoupling.Proofs.Snapshot.Construction
import ClassCoupling.View.CyclesOnly
import Mathlib.Data.List.Flatten

/-!
# Cycles of a snapshot and closed walks

The cycles of a snapshot are the classes of nodes that lie on common closed walks. Cutting a
snapshot down to its cyclic part keeps exactly the arcs on closed walks, and doing so before and
after excused arcs are dropped comes to the same as dropping them first.
-/

namespace ClassCoupling

open Relation

/-! ## Closed walks of a relation -/

section ClosedWalks

universe u
variable {α : Type u} {r p : α → α → Prop} {a b : α}

/-- An arc that lies on a closed walk. -/
def Returning (r : α → α → Prop) (a b : α) : Prop := r a b ∧ ReflTransGen r b a

/-- The classes of elements on common closed walks, each class and each member once. -/
structure ListsCycles (r : α → α → Prop) (classes : List (List α)) : Prop where
  ne_nil : ∀ c ∈ classes, c ≠ []
  nodup : classes.flatten.Nodup
  mem_flatten : ∀ x, x ∈ classes.flatten ↔ TransGen r x x
  mem_iff : ∀ c ∈ classes, ∀ x ∈ c, ∀ y, y ∈ c ↔ ReflTransGen r x y ∧ ReflTransGen r y x

theorem reflTransGen_returning_iff :
    ReflTransGen (Returning r) a b ↔ ReflTransGen r a b ∧ ReflTransGen r b a := by
  constructor
  · intro walk
    induction walk with
    | refl => exact ⟨.refl, .refl⟩
    | tail _ arc ih => exact ⟨ih.1.tail arc.1, arc.2.trans ih.2⟩
  · rintro ⟨there, back⟩
    induction there with
    | refl => exact .refl
    | @tail c d there arc ih => exact (ih (back.head arc)).tail ⟨arc, back.trans there⟩

theorem transGen_returning_iff : TransGen (Returning r) a a ↔ TransGen r a a := by
  simp only [TransGen.head'_iff, reflTransGen_returning_iff]
  constructor
  · rintro ⟨b, arc, back, _⟩
    exact ⟨b, arc.1, back⟩
  · rintro ⟨b, arc, back⟩
    exact ⟨b, ⟨arc, back⟩, back, .single arc⟩

/-- Arcs may be dropped after the cut as well as before. -/
theorem returning_and (r p : α → α → Prop) :
    Returning (fun a b => Returning r a b ∧ p a b) a b ↔
      Returning (fun a b => r a b ∧ p a b) a b := by
  constructor
  · rintro ⟨arc, back⟩
    exact ⟨⟨arc.1.1, arc.2⟩, ReflTransGen.mono (fun c d arc => ⟨arc.1.1, arc.2⟩) _ _ back⟩
  · rintro ⟨arc, back⟩
    have inside : ∀ c d, Returning (fun a b => r a b ∧ p a b) c d → Returning r c d ∧ p c d :=
      fun c d arc => ⟨⟨arc.1.1, ReflTransGen.mono (fun _ _ arc => arc.1) _ _ arc.2⟩, arc.1.2⟩
    refine ⟨inside a b ⟨arc, back⟩, ?_⟩
    exact ReflTransGen.mono inside _ _ (reflTransGen_returning_iff.mpr ⟨back, .single arc⟩)

/-- Walks between names are walks between what they name, if every step from a name leads to one. -/
theorem reflTransGen_iff_of_injective {β : Type u} {q : β → β → Prop} {f : β → α} {i j : β}
    (injective : Function.Injective f) (steps : ∀ i j, q i j ↔ r (f i) (f j))
    (named : ∀ i b, r (f i) b → ∃ j, f j = b) :
    ReflTransGen q i j ↔ ReflTransGen r (f i) (f j) := by
  constructor
  · intro walk
    exact walk.lift f fun i j step => (steps i j).mp step
  · intro walk
    have reached : ∀ b, ReflTransGen r (f i) b → ∃ j, f j = b ∧ ReflTransGen q i j := by
      intro b walk
      induction walk with
      | refl => exact ⟨i, rfl, .refl⟩
      | tail _ step ih =>
        obtain ⟨k, rfl, walk⟩ := ih
        obtain ⟨m, rfl⟩ := named k _ step
        exact ⟨m, rfl, walk.tail ((steps k m).mpr step)⟩
    obtain ⟨k, same, walk⟩ := reached _ walk
    exact injective same ▸ walk

theorem ListsCycles.perm {classes others : List (List α)} (lists : ListsCycles r classes)
    (perm : classes.Perm others) : ListsCycles r others where
  ne_nil c mem := lists.ne_nil c (perm.mem_iff.mpr mem)
  nodup := perm.flatten.nodup_iff.mp lists.nodup
  mem_flatten x := by
    rw [← perm.flatten.mem_iff]
    exact lists.mem_flatten x
  mem_iff c mem := lists.mem_iff c (perm.mem_iff.mpr mem)

theorem listsCycles_returning_iff {classes : List (List α)} :
    ListsCycles (Returning r) classes ↔ ListsCycles r classes := by
  have walks : ∀ x y, ReflTransGen (Returning r) x y ∧ ReflTransGen (Returning r) y x ↔
      ReflTransGen r x y ∧ ReflTransGen r y x := by
    intro x y
    rw [reflTransGen_returning_iff, reflTransGen_returning_iff]
    exact ⟨fun walks => walks.1, fun walks => ⟨walks, walks.symm⟩⟩
  constructor
  · intro lists
    refine ⟨lists.ne_nil, lists.nodup, ?_, ?_⟩
    · intro x
      rw [lists.mem_flatten, transGen_returning_iff]
    · intro c mem x inside y
      rw [lists.mem_iff c mem x inside, walks]
  · intro lists
    refine ⟨lists.ne_nil, lists.nodup, ?_, ?_⟩
    · intro x
      rw [lists.mem_flatten, transGen_returning_iff]
    · intro c mem x inside y
      rw [lists.mem_iff c mem x inside, walks]

/-- Cycles given by their members and their arcs: all that join two members, each once. -/
structure DescribesCycles (r : α → α → Prop) (cycles : List (List α × List (α × α))) : Prop where
  classes : ListsCycles r (cycles.map (·.1))
  arcs_nodup : ∀ c ∈ cycles, c.2.Nodup
  mem_arcs : ∀ c ∈ cycles, ∀ u v, (u, v) ∈ c.2 ↔ u ∈ c.1 ∧ v ∈ c.1 ∧ r u v

namespace DescribesCycles

variable {cycles others : List (List α × List (α × α))}

theorem eq_nil_iff (describes : DescribesCycles r cycles) :
    cycles = [] ↔ ∀ x, ¬ TransGen r x x := by
  constructor
  · intro none x walk
    rw [← describes.classes.mem_flatten, none] at walk
    cases walk
  · intro acyclic
    apply List.eq_nil_iff_forall_not_mem.mpr
    intro c mem
    have listed : c.1 ∈ cycles.map (·.1) := List.mem_map_of_mem mem
    obtain ⟨x, inside⟩ := List.exists_mem_of_ne_nil _ (describes.classes.ne_nil _ listed)
    have inCycle := List.mem_flatten.mpr ⟨_, listed, inside⟩
    exact acyclic x ((describes.classes.mem_flatten x).mp inCycle)

theorem of_returning (describes : DescribesCycles (Returning r) cycles) :
    DescribesCycles r cycles := by
  have classes := listsCycles_returning_iff.mp describes.classes
  refine ⟨classes, describes.arcs_nodup, ?_⟩
  intro c mem u v
  rw [describes.mem_arcs c mem]
  constructor
  · rintro ⟨source, target, arc⟩
    exact ⟨source, target, arc.1⟩
  · rintro ⟨source, target, arc⟩
    have walks := (classes.mem_iff c.1 (List.mem_map_of_mem mem) u source v).mp target
    exact ⟨source, target, arc, walks.2⟩

/-- What the cycles are is settled up to the order in which they are given. -/
theorem exists_perm (describes : DescribesCycles r cycles) (same : DescribesCycles r others) :
    ∀ c ∈ cycles, ∃ d ∈ others, c.1.Perm d.1 ∧ c.2.Perm d.2 := by
  intro c mem
  have listed : c.1 ∈ cycles.map (·.1) := List.mem_map_of_mem mem
  obtain ⟨x, inside⟩ := List.exists_mem_of_ne_nil _ (describes.classes.ne_nil _ listed)
  have walk := (describes.classes.mem_flatten x).mp (List.mem_flatten.mpr ⟨_, listed, inside⟩)
  obtain ⟨_, other, found⟩ := List.mem_flatten.mp ((same.classes.mem_flatten x).mpr walk)
  obtain ⟨d, d_mem, rfl⟩ := List.mem_map.mp other
  have members : ∀ y, y ∈ c.1 ↔ y ∈ d.1 := by
    intro y
    rw [describes.classes.mem_iff _ listed x inside, same.classes.mem_iff _ other x found]
  refine ⟨d, d_mem, ?_, ?_⟩
  · apply (List.perm_ext_iff_of_nodup ?_ ?_).mpr members
    · exact (List.nodup_flatten.mp describes.classes.nodup).1 _ listed
    · exact (List.nodup_flatten.mp same.classes.nodup).1 _ other
  · apply (List.perm_ext_iff_of_nodup (describes.arcs_nodup c mem) (same.arcs_nodup d d_mem)).mpr
    rintro ⟨u, v⟩
    rw [describes.mem_arcs c mem, same.mem_arcs d d_mem, members, members]

end DescribesCycles

end ClosedWalks

namespace Snapshot

/-! ## Nodes and their numbers -/

abbrev Arc (s : Snapshot) (u v : NodeId) : Prop := (u, v) ∈ s.nodeArcs

def nodeAt (s : Snapshot) (i : Fin s.size) : NodeId := (s.entries.get i).node

variable {s : Snapshot} {u v x : NodeId}

theorem requireNumberedEntries_eq (numbered : s.numbered = true) :
    s.requireNumberedEntries = .ok () := by
  simp [requireNumberedEntries, requireNumbered, numbered]

theorem entry_mem (i : Fin s.size) : s.entries.get i ∈ s.entries := List.get_mem s.entries i

theorem exists_nodeAt (mem : x ∈ s.nodes) : ∃ i, s.nodeAt i = x := by
  obtain ⟨e, listed, node⟩ := mem_nodes.mp mem
  obtain ⟨i, lt, get⟩ := List.getElem_of_mem listed
  refine ⟨⟨i, lt⟩, ?_⟩
  rw [← node, ← get]
  rfl

theorem map_node_entriesOf (c : List (Fin s.size)) :
    (s.entriesOf c).map (·.node) = c.map s.nodeAt := by
  simp [entriesOf, nodeAt]

theorem Consistent.nodeAt_injective (consistent : s.Consistent) : Function.Injective s.nodeAt := by
  intro i j same
  have nodup := consistent.nodes_nodup
  have get : s.nodes[i.1]? = s.nodes[j.1]? := by
    simpa [nodes, nodeAt] using same
  exact Fin.ext ((List.getElem?_inj (by simp [nodes]) nodup).mp get)

namespace Indexed

variable (indexed : s.Indexed) {i j : Fin s.size}
include indexed

theorem place?_eq_some_iff : s.place? x = some i ↔ s.nodeAt i = x := by
  have noted := indexed.lookup_eq_some_iff (x := x) (i := i)
  have here : s.nodes[i.1]? = some (s.nodeAt i) := by simp [nodes, nodeAt]
  rw [here, Option.some.injEq] at noted
  rw [← noted, place?, Option.bind_eq_some_iff]
  constructor
  · rintro ⟨place, found, inside⟩
    split at inside
    · rw [found, ← Option.some.inj inside]
    · cases inside
  · intro found
    exact ⟨i, found, dif_pos i.2⟩

theorem place?_eq_none_iff : s.place? x = none ↔ x ∉ s.nodes := by
  constructor
  · intro none listed
    obtain ⟨i, here⟩ := exists_nodeAt listed
    rw [indexed.place?_eq_some_iff.mpr here] at none
    cases none
  · intro absent
    cases found : s.place? x with
    | none => rfl
    | some i =>
      rw [← indexed.place?_eq_some_iff.mp found] at absent
      exact absurd (mem_nodes.mpr ⟨_, entry_mem i, rfl⟩) absent

theorem digraph_arc_iff :
    (s.digraph .forward).Arc i j ↔ s.Arc (s.nodeAt i) (s.nodeAt j) := by
  unfold Digraph.Arc digraph
  rw [Digraph.successors_ofFn, List.mem_filterMap]
  rw [Arc, nodeAt, ← indexed.mem_successors (entry_mem i)]
  constructor
  · rintro ⟨y, mem, place⟩
    rw [indexed.place?_eq_some_iff.mp place]
    exact mem
  · intro mem
    exact ⟨_, mem, indexed.place?_eq_some_iff.mpr rfl⟩

theorem reaches_iff :
    (s.digraph .forward).Reaches i j ↔ ReflTransGen s.Arc (s.nodeAt i) (s.nodeAt j) := by
  apply reflTransGen_iff_of_injective indexed.nodeAt_injective
  · intro i j
    exact indexed.digraph_arc_iff
  · intro i x arc
    exact exists_nodeAt (indexed.target_mem arc)

theorem closed_walk_iff :
    TransGen (s.digraph .forward).Arc i i ↔ TransGen s.Arc (s.nodeAt i) (s.nodeAt i) := by
  rw [TransGen.head'_iff, TransGen.head'_iff]
  constructor
  · rintro ⟨j, arc, back⟩
    exact ⟨s.nodeAt j, indexed.digraph_arc_iff.mp arc, indexed.reaches_iff.mp back⟩
  · rintro ⟨y, arc, back⟩
    obtain ⟨j, rfl⟩ := exists_nodeAt (indexed.target_mem arc)
    exact ⟨j, indexed.digraph_arc_iff.mpr arc, indexed.reaches_iff.mpr back⟩

/-! ## The cycles -/

theorem listsCycles_cyclic :
    ListsCycles s.Arc (s.components.cyclic.map fun c => (s.entriesOf c).map (·.node)) := by
  obtain ⟨closed, nodup, all⟩ := Digraph.components_spec (s.digraph .forward)
  have cyclic_mem : ∀ {c}, c ∈ s.components.cyclic → c ∈ (s.digraph .forward).components :=
    fun mem => (List.mem_filter.mp mem).1
  simp only [map_node_entriesOf]
  refine ⟨?_, ?_, ?_, ?_⟩
  · intro _ listed
    obtain ⟨c, mem, rfl⟩ := List.mem_map.mp listed
    simpa using closed.ne_nil c (cyclic_mem mem)
  · rw [← List.map_flatten]
    apply List.Nodup.map indexed.nodeAt_injective
    exact nodup.sublist (List.Sublist.flatten List.filter_sublist)
  · intro x
    rw [← List.map_flatten, List.mem_map]
    constructor
    · rintro ⟨i, mem, rfl⟩
      obtain ⟨c, mem, inside⟩ := List.mem_flatten.mp mem
      have cyclic := (List.mem_filter.mp mem).2
      exact indexed.closed_walk_iff.mp ((Digraph.isCycle_iff (cyclic_mem mem) inside).mp cyclic)
    · intro walk
      obtain ⟨_, arc, -⟩ := TransGen.head'_iff.mp walk
      obtain ⟨i, rfl⟩ := exists_nodeAt (source_mem arc)
      obtain ⟨c, mem, inside⟩ := List.mem_flatten.mp (all i)
      refine ⟨i, List.mem_flatten.mpr ⟨c, List.mem_filter.mpr ⟨mem, ?_⟩, inside⟩, rfl⟩
      exact (Digraph.isCycle_iff mem inside).mpr (indexed.closed_walk_iff.mpr walk)
  · intro _ listed _ member y
    obtain ⟨c, mem, rfl⟩ := List.mem_map.mp listed
    obtain ⟨i, inside, rfl⟩ := List.mem_map.mp member
    rw [List.mem_map]
    constructor
    · rintro ⟨j, other, rfl⟩
      obtain ⟨there, back⟩ := (Digraph.mem_component_iff (cyclic_mem mem) inside).mp other
      exact ⟨indexed.reaches_iff.mp there, indexed.reaches_iff.mp back⟩
    · rintro ⟨there, back⟩
      have listed : y ∈ s.nodes := by
        rcases back.cases_head with same | ⟨_, arc, -⟩
        · rw [same]
          exact mem_nodes.mpr ⟨_, entry_mem i, rfl⟩
        · exact source_mem arc
      obtain ⟨j, rfl⟩ := exists_nodeAt listed
      refine ⟨j, (Digraph.mem_component_iff (cyclic_mem mem) inside).mpr ?_, rfl⟩
      exact ⟨indexed.reaches_iff.mpr there, indexed.reaches_iff.mpr back⟩

theorem listsCycles_cycles : ListsCycles s.Arc (s.cycles.map fun c => c.map (·.node)) := by
  apply indexed.listsCycles_cyclic.perm
  rw [cycles, List.map_map]
  exact (List.mergeSort_perm _ _).symm.map _

end Indexed

/-! ## The cyclic part -/

theorem mem_components_of_mem_cyclic {c : List (Fin s.size)} (mem : c ∈ s.components.cyclic) :
    c ∈ (s.digraph .forward).components := (List.mem_filter.mp mem).1

/-- Whether one cycle has both nodes. -/
def sharesCycle (s : Snapshot) (u v : NodeId) : Bool :=
  s.components.cyclic.any fun c => u ∈ c.map s.nodeAt ∧ v ∈ c.map s.nodeAt

theorem sharesCycle_iff : s.sharesCycle u v = true ↔
    ∃ c ∈ s.components.cyclic, u ∈ c.map s.nodeAt ∧ v ∈ c.map s.nodeAt := by
  simp only [sharesCycle, List.any_eq_true, decide_eq_true_eq]

theorem Consistent.sharesCycle_nodeAt (consistent : s.Consistent) {i j : Fin s.size}
    (member : i ∈ s.components.cyclic.flatten) :
    s.sharesCycle (s.nodeAt i) (s.nodeAt j) = true ↔
      s.components.componentOf i = s.components.componentOf j := by
  have inj := consistent.nodeAt_injective
  have owner : ∀ c ∈ s.components.cyclic, ∀ k ∈ c, ∀ m,
      s.components.componentOf k = s.components.componentOf m ↔ m ∈ c := by
    intro c mem k inside m
    obtain ⟨place, found⟩ := List.mem_iff_getElem?.mp (mem_components_of_mem_cyclic mem)
    have here : s.components.componentOf k = place := (Digraph.componentTable_eq_iff found).mpr inside
    rw [here, eq_comm]
    exact Digraph.componentTable_eq_iff found
  simp only [sharesCycle_iff, List.mem_map_of_injective inj]
  constructor
  · rintro ⟨c, mem, source, target⟩
    exact (owner c mem i source j).mpr target
  · intro same
    obtain ⟨c, mem, source⟩ := List.mem_flatten.mp member
    exact ⟨c, mem, source, (owner c mem i source j).mp same⟩

/-- Comparing the components by place is asking for a cycle that has both nodes. -/
theorem Consistent.cyclicPart_eq (consistent : s.Consistent) :
    s.cyclicPart =
      (s.restrict (s.entriesOf s.components.cyclic.flatten)).filterArcs s.sharesCycle := by
  have nodup : s.components.cyclic.flatten.Nodup :=
    (Digraph.components_spec (s.digraph .forward)).2.1.sublist
      (List.Sublist.flatten List.filter_sublist)
  have nodes : (s.restrict (s.entriesOf s.components.cyclic.flatten)).nodes =
      s.components.cyclic.flatten.map s.nodeAt := by
    rw [nodes_restrict, map_node_entriesOf]
    exact eraseDups_eq_self (nodup.map consistent.nodeAt_injective)
  refine (indexed_restrict _ _).unlinkAll_filter ?_
  intro i j u v source target _
  rw [nodes, List.getElem?_map, Option.map_eq_some_iff] at source target
  obtain ⟨a, atI, rfl⟩ := source
  obtain ⟨b, atJ, rfl⟩ := target
  rw [← Bool.not_eq_true, consistent.sharesCycle_nodeAt (List.mem_of_getElem? atI)]
  simp only [List.getElem?_map, atI, atJ, Option.map_some, ne_eq, Option.some.injEq,
    decide_eq_true_eq]

theorem indexed_cyclicPart (s : Snapshot) : s.cyclicPart.Indexed := (indexed_restrict _ _).unlinkAll _

theorem mem_nodes_cyclicPart (listed : x ∈ s.cyclicPart.nodes) : x ∈ s.nodes := by
  unfold cyclicPart at listed
  rw [(indexed_restrict _ _).unlinkAll_eq, nodes_filterArcs, mem_nodes_restrict] at listed
  obtain ⟨_, chosen, rfl⟩ := listed
  obtain ⟨i, -, rfl⟩ := List.mem_map.mp chosen
  exact mem_nodes.mpr ⟨_, entry_mem i, rfl⟩

theorem Indexed.arc_cyclicPart (indexed : s.Indexed) :
    s.cyclicPart.Arc u v ↔ Returning s.Arc u v := by
  have lists := indexed.listsCycles_cyclic
  simp only [map_node_entriesOf] at lists
  have grouped : ∀ x, (∃ e ∈ s.entriesOf s.components.cyclic.flatten, e.node = x) ↔
      x ∈ (s.components.cyclic.map fun c => c.map s.nodeAt).flatten := by
    intro x
    rw [← List.map_flatten, ← map_node_entriesOf, List.mem_map]
  rw [Arc, indexed.cyclicPart_eq, mem_nodeArcs_filterArcs, mem_nodeArcs_restrict, grouped, grouped,
    sharesCycle_iff]
  constructor
  · rintro ⟨⟨arc, -⟩, c, mem, source, target⟩
    exact ⟨arc, ((lists.mem_iff _ (List.mem_map_of_mem mem) u source v).mp target).2⟩
  · rintro ⟨arc, back⟩
    have walk : TransGen s.Arc u u := TransGen.head'_iff.mpr ⟨v, arc, back⟩
    obtain ⟨_, listed, source⟩ := List.mem_flatten.mp ((lists.mem_flatten u).mpr walk)
    have target := (lists.mem_iff _ listed u source v).mpr ⟨.single arc, back⟩
    obtain ⟨c, mem, rfl⟩ := List.mem_map.mp listed
    exact ⟨⟨arc, List.mem_flatten.mpr ⟨_, listed, source⟩, List.mem_flatten.mpr ⟨_, listed, target⟩⟩,
      c, mem, source, target⟩

/-! ## Cycles without excused arcs -/

variable {t : Tree}

/-- An arc that no rule excuses. -/
def Unexcused (t : Tree) (s : Snapshot) (u v : NodeId) : Prop :=
  s.Arc u v ∧ Excuse.coversArc t u v = false

theorem indexed_unexcusedCycles (t : Tree) (s : Snapshot) : (s.unexcusedCycles t).Indexed :=
  indexed_cyclicPart _

theorem Indexed.dropExcused (indexed : s.Indexed) : (s.dropExcused t).Indexed := indexed.unlinkAll _

/-- While the numbers are right, the arcs that the nodes at their places excuse are dropped. -/
theorem Indexed.dropExcused_eq (indexed : s.Indexed) :
    s.dropExcused t = s.filterArcs fun u v => !Excuse.coversArc t u v := by
  refine indexed.unlinkAll_filter ?_
  intro i j u v source target _
  obtain ⟨e, atI, rfl⟩ := getElem?_nodes.mp source
  obtain ⟨f, atJ, rfl⟩ := getElem?_nodes.mp target
  simp [atI, atJ]

theorem Indexed.arc_dropExcused (indexed : s.Indexed) :
    (s.dropExcused t).Arc u v ↔ s.Unexcused t u v := by
  rw [indexed.dropExcused_eq, Arc, mem_nodeArcs_filterArcs, Bool.not_eq_true', Unexcused]

theorem Indexed.arc_unexcusedCycles (indexed : s.Indexed) :
    (s.unexcusedCycles t).Arc u v ↔ Returning (s.Unexcused t) u v := by
  have dropped : (s.cyclicPart.dropExcused t).Arc =
      fun u v => Returning s.Arc u v ∧ Excuse.coversArc t u v = false := by
    funext u v
    rw [(indexed_cyclicPart s).arc_dropExcused, Unexcused, indexed.arc_cyclicPart]
  rw [unexcusedCycles, (indexed_cyclicPart s).dropExcused.arc_cyclicPart, dropped]
  exact returning_and _ _

/-- No arc that is left is excused. -/
theorem Indexed.unexcused_unexcusedCycles (indexed : s.Indexed) :
    (s.unexcusedCycles t).Unexcused t = Returning (s.Unexcused t) := by
  funext u v
  rw [Unexcused, indexed.arc_unexcusedCycles]
  exact propext ⟨fun arc => arc.1, fun arc => ⟨arc, arc.1.2⟩⟩

/-- The arcs of a cycle given by its entries. -/
def cycleArcs (members : List Entry) : List (NodeId × NodeId) :=
  members.flatMap fun entry =>
    (entry.successors.filter fun target => target ∈ members.map (·.node)).map fun target =>
      (entry.node, target)

theorem Indexed.describesCycles (indexed : s.Indexed) :
    DescribesCycles s.Arc (s.cycles.map fun c => (c.map (·.node), cycleArcs c)) := by
  have classes := indexed.listsCycles_cycles
  have entry_of : ∀ c ∈ s.cycles, ∀ e ∈ c, e ∈ s.entries := by
    intro c mem e inside
    obtain ⟨indices, -, rfl⟩ := List.mem_map.mp mem
    obtain ⟨i, -, rfl⟩ := List.mem_map.mp inside
    exact entry_mem i
  refine ⟨by simpa [Function.comp_def] using classes, ?_, ?_⟩
  · intro _ listed
    obtain ⟨c, mem, rfl⟩ := List.mem_map.mp listed
    have nodup : (c.map (·.node)).Nodup :=
      (List.nodup_flatten.mp classes.nodup).1 _ (List.mem_map_of_mem mem)
    apply nodup_pairs nodup
    intro e inside
    exact (indexed.successors_nodup e (entry_of c mem e inside)).filter _
  · intro _ listed u v
    obtain ⟨c, mem, rfl⟩ := List.mem_map.mp listed
    simp only [cycleArcs, List.mem_flatMap, List.mem_map, List.mem_filter, decide_eq_true_eq,
      Prod.mk.injEq]
    constructor
    · rintro ⟨e, inside, _, ⟨arc, target⟩, rfl, rfl⟩
      refine ⟨⟨e, inside, rfl⟩, target, ?_⟩
      exact (indexed.mem_successors (entry_of c mem e inside)).mp arc
    · rintro ⟨⟨e, inside, rfl⟩, target, arc⟩
      refine ⟨e, inside, v, ⟨?_, target⟩, rfl, rfl⟩
      exact (indexed.mem_successors (entry_of c mem e inside)).mpr arc

theorem Indexed.describesCycles_unexcused (indexed : s.Indexed) :
    DescribesCycles (s.Unexcused t)
      ((s.unexcusedCycles t).cycles.map fun c => (c.map (·.node), cycleArcs c)) := by
  have describes := (indexed_unexcusedCycles t s).describesCycles
  have arcs : (s.unexcusedCycles t).Arc = Returning (s.Unexcused t) := by
    funext u v
    rw [indexed.arc_unexcusedCycles]
  rw [arcs] at describes
  exact describes.of_returning

/-- Cutting down to the unexcused cycles leaves the unexcused cycles as they are. -/
theorem Indexed.describesCycles_unexcused_twice (indexed : s.Indexed) :
    DescribesCycles (s.Unexcused t)
      (((s.unexcusedCycles t).unexcusedCycles t).cycles.map fun c =>
        (c.map (·.node), cycleArcs c)) := by
  have describes := (indexed_unexcusedCycles t s).describesCycles_unexcused (t := t)
  rw [indexed.unexcused_unexcusedCycles] at describes
  exact describes.of_returning

end Snapshot

end ClassCoupling
