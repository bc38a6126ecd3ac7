import ClassCoupling.Proofs.Snapshot.Construction
import ClassCoupling.Proofs.Tree.Reachable
import ClassCoupling.Proofs.Tree.Representation

/-!
# The snapshot of a tree

The snapshot of a tree is the quotient of the links between leaves: two leaves count as one if the
same node shows them. Every arc is explained by the links behind it, no link is lost, and every leaf
is counted once.
-/

namespace ClassCoupling.Snapshot

open Tree

variable {t : Tree} {a b u v x : NodeId}

/-! ## Nodes -/

theorem nodes_ofTree (tree : t.Contained) :
    (ofTree t).nodes = (t.walkVisible root).filter t.hasOwnContent := by
  rw [ofTree, nodes_ofNodes]
  exact eraseDups_eq_self ((walkVisible_root_nodup tree).filter _)

theorem mem_nodes_ofTree (tree : t.Contained) : u ∈ (ofTree t).nodes ↔
    u ≠ root ∧ u < t.size ∧ t.representative u = u ∧ t.containedLeaves u ≠ [] := by
  rw [nodes_ofTree tree, List.mem_filter, mem_walkVisible_root tree, hasOwnContent]
  simp [and_assoc]

theorem representative_of_mem_nodes (tree : t.Contained) (hu : u ∈ (ofTree t).nodes) :
    t.representative u = u := ((mem_nodes_ofTree tree).mp hu).2.2.1

theorem containedLeaves_ne_nil (tree : t.Contained) (hu : u ∈ (ofTree t).nodes) :
    t.containedLeaves u ≠ [] := ((mem_nodes_ofTree tree).mp hu).2.2.2

theorem units_eq (tree : t.Contained) {e : Entry} (he : e ∈ (ofTree t).entries) :
    e.units = (t.containedLeaves e.node).length := by
  have listed : e.node ∈ (t.walkVisible root).filter t.hasOwnContent := by
    rw [← nodes_ofTree tree]
    exact mem_nodes.mpr ⟨e, he, rfl⟩
  rw [ofTree, ofNodes_eq_build] at he
  rw [(mem_entries_build he).2.1]
  have nodup : (((t.walkVisible root).filter t.hasOwnContent).map id).Nodup := by
    rw [List.map_id]
    exact (walkVisible_root_nodup tree).filter _
  have counted := lookup_pairs t.unitCount nodup listed
  rw [id_eq] at counted
  exact congrArg (Option.getD · 0) counted

/-- A leaf that the root does not show is shown by a node of the snapshot. -/
theorem representative_mem_nodes (tree : t.Contained) (leaf : t.isLeaf a = true)
    (below : t.representative a ≠ root) : t.representative a ∈ (ofTree t).nodes := by
  have self := representative_representative tree a
  refine (mem_nodes_ofTree tree).mpr ⟨below, ?_, self, ?_⟩
  · rcases representative_mem tree a with same | above
    · rw [same]
      exact lt_of_isLeaf leaf
    · exact Nat.lt_trans (lt_of_mem_ancestors tree above) (lt_of_isLeaf leaf)
  · exact List.ne_nil_of_mem ((mem_containedLeaves tree self).mpr ⟨leaf, rfl⟩)

/-! ## A snapshot is its own copy -/

theorem shownLinks_nodup (t : Tree) (side : Side) (id : NodeId) :
    (t.shownLinks side id).Nodup := by
  rw [shownLinks_eq]
  split
  · exact nodup_eraseDups _
  · exact nodup_eraseDups _

theorem restrict_ofNodes (t : Tree) (nodes : List NodeId) :
    (ofNodes t nodes).restrict (ofNodes t nodes).entries = ofNodes t nodes := by
  have listed : (nodes.map fun node => (node, t.unitCount node)).map (·.1) = nodes := by
    simp [Function.comp_def]
  have arcs := nodeArcs_build_pairs t.generation (nodes.map fun node => (node, t.unitCount node))
    t.successors (shownLinks_nodup t .outgoing)
  dsimp only at arcs
  rw [listed] at arcs
  rw [ofNodes_eq_build]
  apply Consistent.restrict_self consistent_build rfl
  intro e mem
  rw [arcs]
  exact (mem_entries_build mem).2.2.2

theorem restrict_ofTree (t : Tree) :
    (ofTree t).restrict (ofTree t).entries = ofTree t :=
  restrict_ofNodes t _

/-! ## Reasons -/

theorem reasons_nodup (wf : t.WellFormed) (nodup : (t.reasonLeaves u).Nodup) :
    (t.reasons u v).Nodup := by
  rw [reasons, List.nodup_flatMap]
  refine ⟨fun leaf _ => ?_, ?_⟩
  · exact ((wf.uses_nodup leaf).filter _).map (fun _ _ same => (Prod.mk.injEq _ _ _ _ ▸ same).2)
  · refine nodup.pairwise_of_forall_ne fun a _ b _ different pair inA inB => ?_
    obtain ⟨_, -, rfl⟩ := List.mem_map.mp inA
    obtain ⟨_, -, same⟩ := List.mem_map.mp inB
    exact different (congrArg Prod.fst same).symm

section Quotient

variable (wf : t.WellFormed)
include wf

theorem mem_reasons_iff (hu : u ∈ (ofTree t).nodes) (hv : v ∈ (ofTree t).nodes) :
    (a, b) ∈ t.reasons u v ↔ b ∈ t.uses a ∧ t.representative a = u ∧ t.representative b = v := by
  have tree := wf.toContained
  rw [mem_reasons, reasonLeaves_eq (containedLeaves_ne_nil tree hu),
    reasonLeaves_eq (containedLeaves_ne_nil tree hv),
    mem_containedLeaves tree (representative_of_mem_nodes tree hu),
    mem_containedLeaves tree (representative_of_mem_nodes tree hv)]
  constructor
  · rintro ⟨⟨-, source⟩, link, -, target⟩
    exact ⟨link, source, target⟩
  · rintro ⟨link, source, target⟩
    exact ⟨⟨isLeaf_of_mem_uses link, source⟩, link, wf.isLeaf link, target⟩

theorem reasons_nodup_of_mem (hu : u ∈ (ofTree t).nodes) : (t.reasons u v).Nodup := by
  refine reasons_nodup wf ?_
  rw [reasonLeaves_eq (containedLeaves_ne_nil wf.toContained hu)]
  exact containedLeaves_nodup wf.toContained u

/-! ## Arcs -/

omit wf in
/-- A node that stands for leaves is linked to what shows the other ends of their links. Only a leaf
keeps a link to itself. -/
theorem mem_shownLinks {side : Side} (standsFor : t.containedLeaves u ≠ []) :
    x ∈ t.shownLinks side u ↔ (u ≠ x ∨ t.isLeaf u = true) ∧
      ∃ a ∈ t.containedLeaves u, ∃ b ∈ t.rawLinks side a, t.representative b = x := by
  rw [shownLinks_eq]
  by_cases leaf : t.isLeaf u = true
  · simp [leaf, containedLeaves, List.mem_eraseDups]
  · have mode : t.mode u ≠ .expanded := by
      intro expanded
      simp [containedLeaves, leaf, expanded] at standsFor
    rw [if_neg leaf, if_neg mode]
    simp only [List.mem_eraseDups, List.mem_filter, List.mem_map, List.mem_flatMap,
      decide_eq_true_eq]
    constructor
    · rintro ⟨⟨b, ⟨a, ha, hb⟩, rfl⟩, other⟩
      exact ⟨.inl other.symm, a, ha, b, hb, rfl⟩
    · rintro ⟨other, a, ha, b, hb, rfl⟩
      exact ⟨⟨b, ⟨a, ha, hb⟩, rfl⟩, (other.resolve_right leaf).symm⟩

omit wf in
theorem mem_nodeArcs_ofTree : (u, v) ∈ (ofTree t).nodeArcs ↔
    u ∈ (ofTree t).nodes ∧ v ∈ (ofTree t).nodes ∧ v ∈ t.successors u := by
  simp only [ofTree, ofNodes_eq_build, mem_nodeArcs_build, mem_nodes_build, List.mem_flatMap,
    List.mem_eraseDups, List.mem_map, Prod.mk.injEq]
  constructor
  · rintro ⟨⟨_, -, _, link, rfl, rfl⟩, source, target⟩
    exact ⟨source, target, link⟩
  · rintro ⟨source, target, link⟩
    refine ⟨⟨u, ?_, v, link, rfl, rfl⟩, source, target⟩
    obtain ⟨_, ⟨node, listed, rfl⟩, rfl⟩ := source
    exact listed

theorem arc_iff (hu : u ∈ (ofTree t).nodes) (hv : v ∈ (ofTree t).nodes) :
    (u, v) ∈ (ofTree t).nodeArcs ↔ t.reasons u v ≠ [] ∧ (u ≠ v ∨ t.isLeaf u = true) := by
  have tree := wf.toContained
  rw [mem_nodeArcs_ofTree, successors, mem_shownLinks (containedLeaves_ne_nil tree hu)]
  simp only [hu, hv, true_and, and_comm (b := u ≠ v ∨ t.isLeaf u = true)]
  refine and_congr_right fun _ => ?_
  simp only [mem_containedLeaves tree (representative_of_mem_nodes tree hu), rawLinks]
  constructor
  · rintro ⟨a, ⟨-, source⟩, b, link, target⟩
    exact List.ne_nil_of_mem ((mem_reasons_iff wf hu hv).mpr ⟨link, source, target⟩)
  · intro explained
    obtain ⟨⟨a, b⟩, mem⟩ := List.exists_mem_of_ne_nil _ explained
    obtain ⟨link, source, target⟩ := (mem_reasons_iff wf hu hv).mp mem
    exact ⟨a, ⟨isLeaf_of_mem_uses link, source⟩, b, link, target⟩

theorem mem_predecessors_iff (hu : u ∈ (ofTree t).nodes) (hv : v ∈ (ofTree t).nodes) :
    u ∈ t.predecessors v ↔ (u, v) ∈ (ofTree t).nodeArcs := by
  have tree := wf.toContained
  rw [mem_nodeArcs_ofTree, predecessors, successors,
    mem_shownLinks (containedLeaves_ne_nil tree hu),
    mem_shownLinks (containedLeaves_ne_nil tree hv)]
  simp only [hu, hv, true_and, rawLinks,
    mem_containedLeaves tree (representative_of_mem_nodes tree hu),
    mem_containedLeaves tree (representative_of_mem_nodes tree hv)]
  have sides : (v ≠ u ∨ t.isLeaf v = true) ↔ (u ≠ v ∨ t.isLeaf u = true) := by
    by_cases same : u = v
    · simp [same]
    · simp [same, Ne.symm same]
  rw [sides]
  refine and_congr_right fun _ => ?_
  constructor
  · rintro ⟨b, ⟨-, target⟩, a, link, source⟩
    have link := wf.mem_usedBy.mp link
    exact ⟨a, ⟨isLeaf_of_mem_uses link, source⟩, b, link, target⟩
  · rintro ⟨a, ⟨-, source⟩, b, link, target⟩
    exact ⟨b, ⟨wf.isLeaf link, target⟩, a, wf.mem_usedBy.mpr link, source⟩

end Quotient

/-! ## Counting -/

theorem total_map_length {α β : Type} (f : α → List β) (xs : List α) :
    total (xs.map fun x => (f x).length) = (xs.flatMap f).length := by
  induction xs with
  | nil => rfl
  | cons x xs ih => rw [List.map_cons, total_cons, ih, List.flatMap_cons, List.length_append]

/-- Every link between leaves, as a pair. -/
def rawLinkPairs (t : Tree) : List (NodeId × NodeId) :=
  (List.range t.size).flatMap fun a => (t.uses a).map fun b => (a, b)

theorem mem_rawLinkPairs : (a, b) ∈ rawLinkPairs t ↔ b ∈ t.uses a := by
  simp only [rawLinkPairs, List.mem_flatMap, List.mem_range, List.mem_map, Prod.mk.injEq]
  constructor
  · rintro ⟨_, -, _, link, rfl, rfl⟩
    exact link
  · intro link
    exact ⟨a, lt_of_isLeaf (isLeaf_of_mem_uses link), b, link, rfl, rfl⟩

theorem rawLinkPairs_nodup (wf : t.WellFormed) : (rawLinkPairs t).Nodup := by
  rw [rawLinkPairs, List.nodup_flatMap]
  refine ⟨fun a _ => (wf.uses_nodup a).map fun _ _ same => (Prod.mk.inj same).2, ?_⟩
  refine List.nodup_range.pairwise_of_forall_ne fun a _ b _ different pair inA inB => ?_
  obtain ⟨_, -, rfl⟩ := List.mem_map.mp inA
  obtain ⟨_, -, same⟩ := List.mem_map.mp inB
  exact different (Prod.mk.inj same).1.symm

section Counts

variable (wf : t.WellFormed) (expanded : t.mode root = .expanded)
include wf

theorem reasonPairs_nodup : ((ofTree t).nodes.flatMap fun u =>
    (ofTree t).nodes.flatMap fun v => t.reasons u v).Nodup := by
  have nodup := (indexed_ofTree t).nodes_nodup
  rw [List.nodup_flatMap]
  refine ⟨fun u hu => ?_, ?_⟩
  · rw [List.nodup_flatMap]
    refine ⟨fun v _ => reasons_nodup_of_mem wf hu, ?_⟩
    refine nodup.pairwise_of_forall_ne fun v hv w hw different pair inV inW => ?_
    have atV := ((mem_reasons_iff wf hu hv).mp inV).2.2
    have atW := ((mem_reasons_iff wf hu hw).mp inW).2.2
    exact different (atV.symm.trans atW)
  · refine nodup.pairwise_of_forall_ne fun u hu w hw different pair inU inW => ?_
    obtain ⟨v, hv, inU⟩ := List.mem_flatMap.mp inU
    obtain ⟨v', hv', inW⟩ := List.mem_flatMap.mp inW
    have atU := ((mem_reasons_iff wf hu hv).mp inU).2.1
    have atW := ((mem_reasons_iff wf hw hv').mp inW).2.1
    exact different (atU.symm.trans atW)

include expanded

theorem reasonPairs_perm : ((ofTree t).nodes.flatMap fun u =>
    (ofTree t).nodes.flatMap fun v => t.reasons u v).Perm (rawLinkPairs t) := by
  have tree := wf.toContained
  refine (List.perm_ext_iff_of_nodup (reasonPairs_nodup wf) (rawLinkPairs_nodup wf)).mpr ?_
  rintro ⟨a, b⟩
  rw [mem_rawLinkPairs]
  simp only [List.mem_flatMap]
  constructor
  · rintro ⟨u, hu, v, hv, mem⟩
    exact ((mem_reasons_iff wf hu hv).mp mem).1
  · intro link
    have leafA := isLeaf_of_mem_uses link
    have leafB := wf.isLeaf link
    have hu := representative_mem_nodes tree leafA (representative_ne_root tree expanded leafA)
    have hv := representative_mem_nodes tree leafB (representative_ne_root tree expanded leafB)
    exact ⟨_, hu, _, hv, (mem_reasons_iff wf hu hv).mpr ⟨link, rfl, rfl⟩⟩

theorem containedLeaves_perm : ((ofTree t).nodes.flatMap t.containedLeaves).Perm
    ((List.range t.size).filter t.isLeaf) := by
  have tree := wf.toContained
  have self {u : NodeId} (hu : u ∈ (ofTree t).nodes) := representative_of_mem_nodes tree hu
  have nodup : ((ofTree t).nodes.flatMap t.containedLeaves).Nodup := by
    rw [List.nodup_flatMap]
    refine ⟨fun u _ => containedLeaves_nodup tree u, ?_⟩
    refine (indexed_ofTree t).nodes_nodup.pairwise_of_forall_ne
      fun u hu w hw different a inU inW => ?_
    have atU := ((mem_containedLeaves tree (self hu)).mp inU).2
    have atW := ((mem_containedLeaves tree (self hw)).mp inW).2
    exact different (atU.symm.trans atW)
  refine (List.perm_ext_iff_of_nodup nodup (List.nodup_range.filter _)).mpr fun a => ?_
  rw [List.mem_flatMap, List.mem_filter, List.mem_range]
  constructor
  · rintro ⟨u, hu, mem⟩
    have leaf := ((mem_containedLeaves tree (self hu)).mp mem).1
    exact ⟨lt_of_isLeaf leaf, leaf⟩
  · rintro ⟨-, leaf⟩
    have hu := representative_mem_nodes tree leaf (representative_ne_root tree expanded leaf)
    exact ⟨_, hu, (mem_containedLeaves tree (self hu)).mpr ⟨leaf, rfl⟩⟩

end Counts

/-! ## The quotient -/

/-- A tree with a leafs-collapsed container in an expanded one, a container in a collapsed one,
links between and inside them, and a leaf that uses itself. -/
def layered : Tree :=
  [.createLeaf root "a.x.P", .createLeaf root "a.x.Q", .createLeaf root "b.c.R",
    .createLeaf root "b.S", .createLeaf root "T", .link 3 4, .link 3 7, .link 7 8, .link 8 3,
    .link 9 9, .link 4 9, .setMode 2 .leafsCollapsed, .setMode 5 .collapsed].foldl perform .empty

theorem reachable_layered : layered.Reachable := Reachable.empty.run _

/-- A snapshot shows the quotient of the links between leaves by the nodes that show them. -/
theorem ofTree_isQuotient (reached : t.Reachable) :
    (ofTree t).nodes.Nodup ∧
    (∀ u ∈ (ofTree t).nodes, ∀ v ∈ (ofTree t).nodes,
      (t.reasons u v).Nodup ∧
      (∀ a b, (a, b) ∈ t.reasons u v ↔
        b ∈ t.uses a ∧ t.representative a = u ∧ t.representative b = v) ∧
      ((u, v) ∈ (ofTree t).nodeArcs ↔ t.reasons u v ≠ [] ∧ (u ≠ v ∨ t.isLeaf u = true))) ∧
    (∀ e ∈ (ofTree t).entries, ∀ x,
      x ∈ e.predecessors ↔ x ∈ t.predecessors e.node ∧ x ∈ (ofTree t).nodes) ∧
    (t.mode root = .expanded →
      total ((ofTree t).nodes.flatMap fun u =>
          (ofTree t).nodes.map fun v => (t.reasons u v).length) =
        total ((List.range t.size).map fun a => (t.uses a).length)) := by
  have wf := reached.wellFormed
  refine ⟨(indexed_ofTree t).nodes_nodup, fun u hu v hv => ⟨reasons_nodup_of_mem wf hu,
    fun a b => mem_reasons_iff wf hu hv, arc_iff wf hu hv⟩, fun e he x => ?_, fun expanded => ?_⟩
  · have here : e.node ∈ (ofTree t).nodes := mem_nodes.mpr ⟨e, he, rfl⟩
    rw [(indexed_ofTree t).mem_predecessors e he]
    constructor
    · intro arc
      have source := source_mem arc
      exact ⟨(mem_predecessors_iff wf source here).mpr arc, source⟩
    · rintro ⟨predecessor, source⟩
      exact (mem_predecessors_iff wf source here).mp predecessor
  · have shown := total_map_length
      (fun p : NodeId × NodeId => t.reasons p.1 p.2)
      ((ofTree t).nodes.flatMap fun u => (ofTree t).nodes.map fun v => (u, v))
    have raw := total_map_length (fun a => (t.uses a).map fun b => (a, b)) (List.range t.size)
    simp only [List.map_flatMap, List.map_map, Function.comp_def, List.flatMap_assoc,
      List.flatMap_map, List.length_map] at shown raw
    rw [shown, raw]
    exact (reasonPairs_perm wf expanded).length_eq

theorem ofTree_isQuotient_layered :
    layered.Reachable ∧ layered.mode root = .expanded ∧ (ofTree layered).nodes = [2, 5, 9] ∧
    ((2, 5) ∈ (ofTree layered).nodeArcs ↔
      layered.reasons 2 5 ≠ [] ∧ (2 ≠ 5 ∨ layered.isLeaf 2 = true)) ∧
    total ((ofTree layered).nodes.flatMap fun u =>
        (ofTree layered).nodes.map fun v => (layered.reasons u v).length) =
      total ((List.range layered.size).map fun a => (layered.uses a).length) := by
  have expanded : layered.mode root = .expanded := by decide +kernel
  have nodes : (ofTree layered).nodes = [2, 5, 9] := by decide +kernel
  obtain ⟨-, arcs, -, count⟩ := ofTree_isQuotient reachable_layered
  exact ⟨reachable_layered, expanded, nodes, (arcs 2 (by simp [nodes]) 5 (by simp [nodes])).2.2,
    count expanded⟩

/-- Under an expanded root every leaf is shown by exactly one node, and counted once. -/
theorem leaf_shown_once (reached : t.Reachable) (expanded : t.mode root = .expanded) :
    (ofTree t).nodes.Nodup ∧
    (∀ a, t.isLeaf a = true → t.representative a ∈ (ofTree t).nodes ∧
      ∀ u ∈ (ofTree t).nodes, a ∈ t.containedLeaves u ↔ u = t.representative a) ∧
    (∀ u ∈ (ofTree t).nodes, (t.containedLeaves u).Nodup ∧
      ∀ a, a ∈ t.containedLeaves u ↔ t.isLeaf a = true ∧ t.representative a = u) ∧
    (∀ e ∈ (ofTree t).entries, e.units = (t.containedLeaves e.node).length) ∧
    total ((ofTree t).entries.map (·.units)) = (List.range t.size).countP t.isLeaf := by
  have wf := reached.wellFormed
  have tree := wf.toContained
  have standsFor {u a : NodeId} (hu : u ∈ (ofTree t).nodes) :=
    mem_containedLeaves (a := a) tree (representative_of_mem_nodes tree hu)
  refine ⟨(indexed_ofTree t).nodes_nodup, fun a leaf => ⟨?_, fun u hu => ?_⟩,
    fun u hu => ⟨containedLeaves_nodup tree u, fun a => standsFor hu⟩, fun e he => units_eq tree he,
    ?_⟩
  · exact representative_mem_nodes tree leaf (representative_ne_root tree expanded leaf)
  · rw [standsFor hu]
    exact ⟨fun h => h.2.symm, fun h => ⟨leaf, h.symm⟩⟩
  · have units : (ofTree t).entries.map (·.units) =
        (ofTree t).nodes.map fun u => (t.containedLeaves u).length := by
      rw [nodes, List.map_map]
      exact List.map_congr_left fun e he => units_eq tree he
    rw [units, total_map_length, (containedLeaves_perm wf expanded).length_eq,
      List.countP_eq_length_filter]

theorem leaf_shown_once_layered :
    layered.Reachable ∧ layered.mode root = .expanded ∧ layered.isLeaf 7 = true ∧
    layered.representative 7 = 5 ∧ layered.representative 7 ∈ (ofTree layered).nodes ∧
    total ((ofTree layered).entries.map (·.units)) =
      (List.range layered.size).countP layered.isLeaf := by
  have expanded : layered.mode root = .expanded := by decide +kernel
  have leaf : layered.isLeaf 7 = true := by decide +kernel
  obtain ⟨-, shown, -, -, count⟩ := leaf_shown_once reachable_layered expanded
  exact ⟨reachable_layered, expanded, leaf, by decide +kernel, (shown 7 leaf).1, count⟩

end ClassCoupling.Snapshot
