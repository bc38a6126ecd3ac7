import ClassCoupling.Proofs.Snapshot.Quotient

/-!
# The links of expanded containers

An expanded container is linked to what its children are linked to, each child as it is shown, while
its links are explained by all leaves below it. The two differ by the leaves that a leafs-collapsed
container below it leaves to the containers nested in it.
-/

namespace ClassCoupling.Tree

variable {t : Tree} {id u v a c m x : NodeId} {side : Side}

/-- The links of a leaf count as links of the node: the node stands for the leaf, or it is expanded
and the links count as links of a child. -/
inductive Surfaces (t : Tree) (a : NodeId) : NodeId → Prop where
  | own {id : NodeId} (standsFor : a ∈ t.containedLeaves id) : Surfaces t a id
  | passed {id c : NodeId} (container : t.isLeaf id = false) (expanded : t.mode id = .expanded)
      (child : c ∈ t.children id) (below : Surfaces t a c) : Surfaces t a id

/-- The leaf lies in a container nested in a leafs-collapsed one, and all containers between that
one and `u` are expanded. -/
def Buried (t : Tree) (u a : NodeId) : Prop :=
  ∃ m, u ∈ t.ancestors m ∧ m ∈ t.ancestors a ∧ t.mode m = .leafsCollapsed ∧
    t.parent? a ≠ some m ∧ ∀ c ∈ t.ancestors m, u ∈ t.ancestors c → t.mode c = .expanded

/-! ## Which leaves surface -/

theorem surfaces_of_expanded (container : t.isLeaf u = false) (expanded : t.mode u = .expanded) :
    t.Surfaces a u ↔ ∃ c ∈ t.children u, t.Surfaces a c := by
  constructor
  · intro surfaces
    cases surfaces with
    | own standsFor => simp [containedLeaves, container, expanded] at standsFor
    | passed _ _ child below => exact ⟨_, child, below⟩
  · rintro ⟨c, child, below⟩
    exact .passed container expanded child below

theorem surfaces_of_shown (shown : t.isLeaf u = true ∨ t.mode u ≠ .expanded) :
    t.Surfaces a u ↔ a ∈ t.containedLeaves u := by
  constructor
  · intro surfaces
    cases surfaces with
    | own standsFor => exact standsFor
    | passed container expanded _ _ => simp [container, expanded] at shown
  · exact .own

theorem surfaces_of_leaf (leaf : t.isLeaf u = true) : t.Surfaces a u ↔ a = u := by
  rw [surfaces_of_shown (.inl leaf)]
  simp [containedLeaves, leaf]

theorem surfaces_of_leafsCollapsed (tree : t.Contained) (container : t.isLeaf u = false)
    (mode : t.mode u = .leafsCollapsed) :
    t.Surfaces a u ↔ t.isLeaf a = true ∧ t.parent? a = some u := by
  rw [surfaces_of_shown (.inr (by simp [mode]))]
  simp [containedLeaves, container, mode, mem_children tree, and_comm]

theorem surfaces_of_collapsed (tree : t.Contained) (container : t.isLeaf u = false)
    (mode : t.mode u = .collapsed) :
    t.Surfaces a u ↔ t.isLeaf a = true ∧ u ∈ t.ancestors a := by
  rw [surfaces_of_shown (.inr (by simp [mode]))]
  simp [containedLeaves, container, mode, mem_descendantLeaves tree container]

/-! ## Which leaves are buried -/

/-- Nothing lies between a container and its child. -/
theorem not_mem_ancestors_of_child (tree : t.Contained) (child : t.parent? c = some u)
    (above : u ∈ t.ancestors m) : m ∉ t.ancestors c := by
  intro below
  rw [ancestors_eq tree child] at below
  rcases List.mem_cons.mp below with rfl | below
  · exact Nat.lt_irrefl _ (lt_of_mem_ancestors tree above)
  · exact Nat.lt_asymm (lt_of_mem_ancestors tree above) (lt_of_mem_ancestors tree below)

/-- A container between `u` and a node is the child of `u` on the way, or lies below it. -/
theorem eq_or_mem_ancestors_of_child (tree : t.Contained) (child : t.parent? c = some u)
    (above : u ∈ t.ancestors m) (below : m ∈ t.ancestors a)
    (way : c ∈ t.ancestors a ∨ c = a) : m = c ∨ c ∈ t.ancestors m := by
  have outside := not_mem_ancestors_of_child tree child above
  rcases way with way | rfl
  · exact (ancestors_comparable tree below way).imp_right fun either => either.resolve_left outside
  · exact absurd below outside

/-- Whether a leaf is buried is decided by the child on the way to it. -/
theorem buried_iff (tree : t.Contained) (child : t.parent? c = some u)
    (way : c ∈ t.ancestors a ∨ c = a) :
    t.Buried u a ↔ (c ∈ t.ancestors a ∧ t.mode c = .leafsCollapsed ∧ t.parent? a ≠ some c) ∨
      (t.mode c = .expanded ∧ t.Buried c a) := by
  have up := mem_ancestors_of_child tree child
  constructor
  · rintro ⟨m, above, below, mode, deeper, between⟩
    rcases eq_or_mem_ancestors_of_child tree child above below way with rfl | inside
    · exact .inl ⟨below, mode, deeper⟩
    · refine .inr ⟨between c inside up, m, inside, below, mode, deeper, fun d hd belowC => ?_⟩
      exact between d hd (mem_ancestors_trans tree belowC up)
  · rintro (⟨below, mode, deeper⟩ | ⟨expanded, m, inside, below, mode, deeper, between⟩)
    · refine ⟨c, up, below, mode, deeper, fun d hd above => ?_⟩
      exact absurd hd (not_mem_ancestors_of_child tree child above)
    · refine ⟨m, mem_ancestors_trans tree inside up, below, mode, deeper, fun d hd above => ?_⟩
      rcases eq_or_mem_ancestors_of_child tree child above hd (.inl inside) with rfl | belowC
      · exact expanded
      · exact between d hd belowC

theorem not_buried_self (tree : t.Contained) : ¬ t.Buried a a := by
  rintro ⟨m, above, below, -⟩
  exact Nat.lt_asymm (lt_of_mem_ancestors tree above) (lt_of_mem_ancestors tree below)

/-- A leaf surfaces at a child exactly if it is not buried below the container. -/
theorem surfaces_child_iff (tree : t.Contained) (child : t.parent? c = some u)
    (expandedChild : t.isLeaf c = false → t.mode c = .expanded →
      (t.Surfaces a c ↔ t.isLeaf a = true ∧ c ∈ t.ancestors a ∧ ¬ t.Buried c a)) :
    t.Surfaces a c ↔ t.isLeaf a = true ∧ (c ∈ t.ancestors a ∨ c = a) ∧ ¬ t.Buried u a := by
  cases leafC : t.isLeaf c with
  | true =>
    rw [surfaces_of_leaf leafC]
    constructor
    · rintro rfl
      refine ⟨leafC, .inr rfl, fun buried => ?_⟩
      rcases (buried_iff tree child (.inr rfl)).mp buried with ⟨below, -⟩ | ⟨-, buried⟩
      · exact Nat.lt_irrefl _ (lt_of_mem_ancestors tree below)
      · exact not_buried_self tree buried
    · rintro ⟨-, below | same, -⟩
      · simp [isLeaf_of_mem_ancestors tree below] at leafC
      · exact same.symm
  | false =>
    have way (leaf : t.isLeaf a = true) : c ∈ t.ancestors a ∨ c = a ↔ c ∈ t.ancestors a := by
      refine or_iff_left ?_
      rintro rfl
      simp [leafC] at leaf
    have atChild (below : c ∈ t.ancestors a) := buried_iff tree child (.inl below)
    cases mode : t.mode c with
    | expanded =>
      rw [expandedChild leafC mode]
      refine and_congr_right fun leaf => ?_
      rw [way leaf]
      refine and_congr_right fun below => ?_
      simp [atChild below, mode]
    | leafsCollapsed =>
      rw [surfaces_of_leafsCollapsed tree leafC mode]
      refine and_congr_right fun leaf => ?_
      rw [way leaf]
      constructor
      · intro parent
        have below := mem_ancestors_of_child tree parent
        exact ⟨below, by simp [atChild below, mode, parent]⟩
      · rintro ⟨below, surfaces⟩
        simpa [atChild below, mode, below] using surfaces
    | collapsed =>
      rw [surfaces_of_collapsed tree leafC mode]
      refine and_congr_right fun leaf => ?_
      rw [way leaf]
      refine (and_iff_left_of_imp fun below => ?_).symm
      simp [atChild below, mode]

/-- The leaves below an expanded container surface there unless they are buried. -/
theorem surfaces_iff (tree : t.Contained) (container : t.isLeaf u = false)
    (expanded : t.mode u = .expanded) :
    t.Surfaces a u ↔ t.isLeaf a = true ∧ u ∈ t.ancestors a ∧ ¬ t.Buried u a := by
  induction u using children_induction (t := t) with
  | step u ih =>
    have atChild (c : NodeId) (child : c ∈ t.children u) :=
      surfaces_child_iff tree ((mem_children tree).mp child) (ih c child)
    rw [surfaces_of_expanded container expanded, mem_ancestors_iff tree]
    constructor
    · rintro ⟨c, child, below⟩
      obtain ⟨leaf, way, surfaces⟩ := (atChild c child).mp below
      exact ⟨leaf, ⟨c, child, way⟩, surfaces⟩
    · rintro ⟨leaf, ⟨c, child, way⟩, surfaces⟩
      exact ⟨c, child, (atChild c child).mpr ⟨leaf, way, surfaces⟩⟩

/-! ## Links -/

theorem representative_of_mem_shownLinks (tree : t.Contained) (mem : x ∈ t.shownLinks side id) :
    t.representative x = x := by
  rw [shownLinks_eq] at mem
  split at mem
  · obtain ⟨b, -, rfl⟩ := List.mem_map.mp (List.mem_eraseDups.mp mem)
    exact representative_representative tree b
  · obtain ⟨b, -, rfl⟩ := List.mem_map.mp (List.mem_filter.mp (List.mem_eraseDups.mp mem)).1
    exact representative_representative tree b

theorem shownLinks_eq_nil (shown : t.isLeaf id = true ∨ t.mode id ≠ .expanded)
    (none : t.containedLeaves id = []) : t.shownLinks side id = [] := by
  have container : t.isLeaf id = false := by
    cases leaf : t.isLeaf id with
    | false => rfl
    | true => simp [containedLeaves, leaf] at none
  have mode : t.mode id ≠ .expanded := by simpa [container] using shown
  rw [shownLinks_eq]
  simp [container, mode, none]

theorem mem_shownLinks_of_expanded (tree : t.Contained) (container : t.isLeaf id = false)
    (expanded : t.mode id = .expanded) (self : t.representative v = v) (other : v ≠ id) :
    v ∈ t.shownLinks side id ↔ ∃ c ∈ t.children id, v ∈ t.shownLinks side c := by
  rw [shownLinks_eq]
  simp only [container, expanded, Bool.false_eq_true, if_false, if_true,
    List.mem_eraseDups, List.mem_filter, List.mem_map, List.mem_flatMap, decide_eq_true_eq]
  constructor
  · rintro ⟨⟨x, ⟨c, child, mem⟩, rfl⟩, -⟩
    rw [representative_of_mem_shownLinks tree mem]
    exact ⟨c, child, mem⟩
  · rintro ⟨c, child, mem⟩
    exact ⟨⟨v, ⟨c, child, mem⟩, self⟩, other⟩

/-- A node is linked to what shows the other ends of the links that surface there, as far as that
lies elsewhere. -/
theorem mem_shownLinks_iff (tree : t.Contained) (self : t.representative v = v) (other : v ≠ id)
    (notBelow : id ∉ t.ancestors v) :
    v ∈ t.shownLinks side id ↔
      ∃ a, t.Surfaces a id ∧ ∃ b ∈ t.rawLinks side a, t.representative b = v := by
  induction id using children_induction (t := t) with
  | step id ih =>
    by_cases shown : t.isLeaf id = true ∨ t.mode id ≠ .expanded
    · simp only [surfaces_of_shown shown]
      by_cases none : t.containedLeaves id = []
      · simp [shownLinks_eq_nil shown none, none]
      · simp [Snapshot.mem_shownLinks none, Ne.symm other]
    · obtain ⟨container, expanded⟩ : t.isLeaf id = false ∧ t.mode id = .expanded := by
        simpa [not_or] using shown
      have atChild (c : NodeId) (child : c ∈ t.children id) :
          v ∈ t.shownLinks side c ↔
            ∃ a, t.Surfaces a c ∧ ∃ b ∈ t.rawLinks side a, t.representative b = v := by
        have way := fun found => notBelow ((mem_ancestors_iff tree).mpr ⟨c, child, found⟩)
        exact ih c child (fun same => way (.inr same.symm)) fun below => way (.inl below)
      rw [mem_shownLinks_of_expanded tree container expanded self other]
      simp only [surfaces_of_expanded container expanded]
      constructor
      · rintro ⟨c, child, mem⟩
        obtain ⟨a, surfaces, link⟩ := (atChild c child).mp mem
        exact ⟨a, ⟨c, child, surfaces⟩, link⟩
      · rintro ⟨a, ⟨c, child, surfaces⟩, link⟩
        exact ⟨c, child, (atChild c child).mpr ⟨a, surfaces, link⟩⟩

end ClassCoupling.Tree

namespace ClassCoupling.Snapshot

open Tree

variable {t : Tree} {u v a b : NodeId}

/-! ## Explanations -/

theorem mem_reasons_of_expanded (wf : t.WellFormed) (container : t.isLeaf u = false)
    (expanded : t.mode u = .expanded) (shown : v ∈ (ofTree t).nodes) :
    (a, b) ∈ t.reasons u v ↔
      t.isLeaf a = true ∧ u ∈ t.ancestors a ∧ b ∈ t.uses a ∧ t.representative b = v := by
  have tree := wf.toContained
  have below : a ∈ t.reasonLeaves u ↔ t.isLeaf a = true ∧ u ∈ t.ancestors a := by
    simp [reasonLeaves, container, expanded, mem_descendantLeaves tree container]
  rw [mem_reasons, below, reasonLeaves_eq (containedLeaves_ne_nil tree shown),
    mem_containedLeaves tree (representative_of_mem_nodes tree shown), and_assoc]
  refine and_congr_right fun _ => and_congr_right fun _ => and_congr_right fun link => ?_
  simp [wf.isLeaf link]

/-- Two leaves of one container use leaves outside: one lies in the leafs-collapsed container below,
the other deeper in it. -/
def sunken : Tree :=
  [.createLeaf root "a.m.n.X", .createLeaf root "a.m.Z", .createLeaf root "Y",
    .createLeaf root "W", .link 4 6, .link 5 6, .link 4 7,
    .setMode 2 .leafsCollapsed].foldl perform .empty

theorem reachable_sunken : sunken.Reachable := Reachable.empty.run _

/-- An expanded container is linked to a node elsewhere exactly if a link of a leaf that is not
buried explains it. -/
theorem expanded_links_are_explained (reached : t.Reachable) (container : t.isLeaf u = false)
    (expanded : t.mode u = .expanded) (shown : v ∈ (ofTree t).nodes)
    (notBelow : u ∉ t.ancestors v) :
    (v ∈ t.successors u ↔ ∃ a b, (a, b) ∈ t.reasons u v ∧ ¬ t.Buried u a) ∧
    ((∀ a b, (a, b) ∈ t.reasons u v → ¬ t.Buried u a) →
      (v ∈ t.successors u ↔ t.reasons u v ≠ [])) := by
  have wf := reached.wellFormed
  have tree := wf.toContained
  have other : v ≠ u := by
    rintro rfl
    exact containedLeaves_ne_nil tree shown (by simp [containedLeaves, container, expanded])
  have linked : v ∈ t.successors u ↔ ∃ a b, (a, b) ∈ t.reasons u v ∧ ¬ t.Buried u a := by
    have self := representative_of_mem_nodes tree shown
    simp only [successors, mem_shownLinks_iff tree self other notBelow,
      surfaces_iff tree container expanded, mem_reasons_of_expanded wf container expanded shown,
      rawLinks]
    constructor
    · rintro ⟨a, ⟨leaf, below, surfaces⟩, b, link, target⟩
      exact ⟨a, b, ⟨leaf, below, link, target⟩, surfaces⟩
    · rintro ⟨a, b, ⟨leaf, below, link, target⟩, surfaces⟩
      exact ⟨a, ⟨leaf, below, surfaces⟩, b, link, target⟩
  refine ⟨linked, fun surfaces => linked.trans ⟨?_, fun explained => ?_⟩⟩
  · rintro ⟨a, b, mem, -⟩
    exact List.ne_nil_of_mem mem
  · obtain ⟨⟨a, b⟩, mem⟩ := List.exists_mem_of_ne_nil _ explained
    exact ⟨a, b, mem, surfaces a b mem⟩

theorem expanded_links_are_explained_sunken :
    sunken.Reachable ∧ sunken.isLeaf 1 = false ∧ sunken.mode 1 = .expanded ∧
    6 ∈ (ofTree sunken).nodes ∧ 1 ∉ sunken.ancestors 6 ∧ sunken.reasons 1 6 = [(4, 6), (5, 6)] ∧
    6 ∈ sunken.successors 1 ∧ ∃ a b, (a, b) ∈ sunken.reasons 1 6 ∧ ¬ sunken.Buried 1 a := by
  have container : sunken.isLeaf 1 = false := by decide +kernel
  have expanded : sunken.mode 1 = .expanded := by decide +kernel
  have shown : 6 ∈ (ofTree sunken).nodes := by decide +kernel
  have notBelow : 1 ∉ sunken.ancestors 6 := by decide +kernel
  have linked : 6 ∈ sunken.successors 1 := by decide +kernel
  have explained := (expanded_links_are_explained reachable_sunken container expanded shown
    notBelow).1
  exact ⟨reachable_sunken, container, expanded, shown, notBelow, by decide +kernel, linked,
    explained.mp linked⟩

/-- A link of a buried leaf is given as a reason where no link is shown. -/
theorem buried_link_explains_nothing :
    sunken.Reachable ∧ sunken.isLeaf 1 = false ∧ sunken.mode 1 = .expanded ∧
    7 ∈ (ofTree sunken).nodes ∧ 1 ∉ sunken.ancestors 7 ∧
    ¬ (7 ∈ sunken.successors 1 ↔ sunken.reasons 1 7 ≠ []) := by
  refine ⟨reachable_sunken, ?_, ?_, ?_, ?_, ?_⟩ <;> decide +kernel

end ClassCoupling.Snapshot
