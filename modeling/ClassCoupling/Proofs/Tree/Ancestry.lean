import ClassCoupling.Proofs.Tree.WellFormed
import ClassCoupling.Tree.Walk

/-!
# Ancestors and walks

Going up from a node and walking down to it are two readings of one relation: a walk below a node
meets exactly the nodes that have it among their ancestors, each once. The stack-based collection of
leaves meets the same leaves in the same order.
-/

namespace ClassCoupling.Tree

variable {t : Tree} {id p a b c x : NodeId}

theorem ancestors_root (tree : t.Contained) : t.ancestors root = [] := by
  rw [ancestors, tree.root_parent]

theorem ancestors_eq (tree : t.Contained) (h : t.parent? id = some p) :
    t.ancestors id = p :: t.ancestors p := by
  rw [ancestors, h]
  simp [tree.parent_lt h]

theorem mem_ancestors_of_child (tree : t.Contained) (child : t.parent? c = some p) :
    p ∈ t.ancestors c := by
  rw [ancestors_eq tree child]
  exact List.mem_cons_self

theorem mem_children (tree : t.Contained) : c ∈ t.children id ↔ t.parent? c = some id := by
  simp only [children, List.mem_filter, List.mem_map, Prod.exists, exists_eq_right,
    tree.mem_registered, decide_eq_true_eq]
  constructor
  · rintro ⟨⟨_, h, -⟩, -⟩
    exact h
  · intro h
    exact ⟨⟨_, h, rfl⟩, tree.parent_lt h, lt_of_parent?_eq_some h⟩

theorem children_sorted (tree : t.Contained) (id : NodeId) :
    (t.children id).Pairwise (· < ·) :=
  (tree.sorted id).filter _

theorem children_nodup (tree : t.Contained) (id : NodeId) : (t.children id).Nodup :=
  (children_sorted tree id).imp Nat.ne_of_lt

theorem children_eq_nil_of_isLeaf (h : t.isLeaf id = true) : t.children id = [] := by
  have none : t.registered id = [] := by
    refine List.eq_nil_iff_forall_not_mem.mpr fun entry mem => ?_
    simp [isLeaf_eq_false_of_mem_registered mem] at h
  simp [children, none]

/-! ## Ancestors -/

/-- Induction along the way up to the root. -/
theorem ancestors_induction (tree : t.Contained) {P : NodeId → Prop}
    (top : ∀ id, t.parent? id = none → P id)
    (below : ∀ id p, t.parent? id = some p → P p → P id) (id : NodeId) : P id := by
  induction id using Nat.strongRecOn with
  | ind id ih =>
    cases h : t.parent? id with
    | none => exact top id h
    | some p => exact below id p h (ih p (tree.parent_lt h))

theorem ancestors_eq_nil (h : t.parent? id = none) : t.ancestors id = [] := by
  rw [ancestors, h]

theorem lt_of_mem_ancestors (tree : t.Contained) : ∀ {id a}, a ∈ t.ancestors id → a < id := by
  intro id
  induction id using ancestors_induction tree with
  | top id h => simp [ancestors_eq_nil h]
  | below id p h ih =>
    intro a mem
    rw [ancestors_eq tree h] at mem
    have := tree.parent_lt h
    rcases List.mem_cons.mp mem with rfl | above
    · exact this
    · exact Nat.lt_trans (ih above) this

theorem isLeaf_of_mem_ancestors (tree : t.Contained) :
    ∀ {id a}, a ∈ t.ancestors id → t.isLeaf a = false := by
  intro id
  induction id using ancestors_induction tree with
  | top id h => simp [ancestors_eq_nil h]
  | below id p h ih =>
    intro a mem
    rw [ancestors_eq tree h] at mem
    rcases List.mem_cons.mp mem with rfl | above
    · exact tree.isLeaf_parent h
    · exact ih above

theorem mem_ancestors_trans (tree : t.Contained) (below : b ∈ t.ancestors c)
    (above : a ∈ t.ancestors b) : a ∈ t.ancestors c := by
  induction c using ancestors_induction tree with
  | top c h => simp [ancestors_eq_nil h] at below
  | below c p h ih =>
    rw [ancestors_eq tree h] at below ⊢
    rcases List.mem_cons.mp below with rfl | further
    · exact List.mem_cons_of_mem _ above
    · exact List.mem_cons_of_mem _ (ih further)

theorem root_mem_ancestors (tree : t.Contained) (present : id < t.size) (not_root : id ≠ root) :
    root ∈ t.ancestors id := by
  induction id using ancestors_induction tree with
  | top id h =>
    obtain ⟨p, hp⟩ := tree.has_parent present not_root
    simp [h] at hp
  | below id p h ih =>
    rw [ancestors_eq tree h]
    by_cases hp : p = root
    · simp [hp]
    · exact List.mem_cons_of_mem _ (ih (Nat.lt_trans (tree.parent_lt h) present) hp)

theorem lt_of_ancestors_ne_nil (h : t.ancestors id ≠ []) : id < t.size := by
  by_contra absent
  have none : t.parent? id = none := by
    simp [parent?, node?_eq_none (Nat.le_of_not_lt absent)]
  exact h (ancestors_eq_nil none)

/-- The way down from an ancestor starts with one of its children. -/
theorem mem_ancestors_iff (tree : t.Contained) :
    a ∈ t.ancestors x ↔ ∃ c ∈ t.children a, c ∈ t.ancestors x ∨ c = x := by
  constructor
  · intro mem
    induction x using ancestors_induction tree with
    | top x h => simp [ancestors_eq_nil h] at mem
    | below x p h ih =>
      rw [ancestors_eq tree h] at mem
      rcases List.mem_cons.mp mem with rfl | above
      · exact ⟨x, (mem_children tree).mpr h, .inr rfl⟩
      · obtain ⟨c, child, way⟩ := ih above
        refine ⟨c, child, .inl ?_⟩
        rw [ancestors_eq tree h]
        rcases way with further | rfl
        · exact List.mem_cons_of_mem _ further
        · exact List.mem_cons_self
  · rintro ⟨c, child, way⟩
    have up := mem_ancestors_of_child tree ((mem_children tree).mp child)
    rcases way with further | rfl
    · exact mem_ancestors_trans tree further up
    · exact up

/-- Only one child of a container lies on the way up from a node. -/
theorem eq_of_siblings (tree : t.Contained) (ha : t.parent? a = some p) (hb : t.parent? b = some p)
    (wayA : a ∈ t.ancestors x ∨ a = x) (wayB : b ∈ t.ancestors x ∨ b = x) : a = b := by
  -- A sibling of the node itself cannot lie further up: it would be at or above their container.
  have apart : ∀ {c d}, t.parent? c = some p → t.parent? d = some p → d ∉ t.ancestors c := by
    intro c d hc hd mem
    rw [ancestors_eq tree hc] at mem
    have lower := tree.parent_lt hd
    rcases List.mem_cons.mp mem with rfl | above
    · exact Nat.lt_irrefl _ lower
    · exact Nat.lt_asymm lower (lt_of_mem_ancestors tree above)
  induction x using ancestors_induction tree with
  | top x h =>
    simp only [ancestors_eq_nil h, List.not_mem_nil, false_or] at wayA wayB
    rw [wayA, wayB]
  | below x q h ih =>
    rcases wayA with upA | rfl
    · rcases wayB with upB | rfl
      · rw [ancestors_eq tree h, List.mem_cons] at upA upB
        exact ih upA.symm upB.symm
      · exact absurd upA (apart hb ha)
    · rcases wayB with upB | rfl
      · exact absurd upB (apart ha hb)
      · rfl

/-! ## Walking down -/

/-- Induction from the children of a node to the node. -/
theorem children_induction {P : NodeId → Prop}
    (step : ∀ id, (∀ c ∈ t.children id, P c) → P id) (id : NodeId) : P id := by
  induction h : t.size - id using Nat.strongRecOn generalizing id with
  | ind n ih =>
    refine step id fun c child => ih (t.size - c) ?_ c rfl
    have := lt_of_mem_children child
    omega

theorem mem_walkAll (tree : t.Contained) : x ∈ t.walkAll id ↔ id ∈ t.ancestors x := by
  induction id using children_induction (t := t) with
  | step id ih =>
    rw [walkAll_eq, mem_ancestors_iff tree]
    simp only [List.mem_flatMap, List.mem_append, List.mem_singleton]
    constructor
    · rintro ⟨c, child, found⟩
      exact ⟨c, child, found.imp (ih c child).mp Eq.symm⟩
    · rintro ⟨c, child, found⟩
      exact ⟨c, child, found.imp (ih c child).mpr Eq.symm⟩

theorem walkAll_nodup (tree : t.Contained) (id : NodeId) : (t.walkAll id).Nodup := by
  induction id using children_induction (t := t) with
  | step id ih =>
    rw [walkAll_eq, List.nodup_flatMap]
    refine ⟨fun c child => ?_, ?_⟩
    · rw [List.nodup_append]
      refine ⟨ih c child, by simp, ?_⟩
      rintro x below y here rfl
      rw [List.mem_singleton.mp here, mem_walkAll tree] at below
      exact Nat.lt_irrefl _ (lt_of_mem_ancestors tree below)
    · refine (children_nodup tree id).pairwise_of_forall_ne fun c hc d hd different x inC inD => ?_
      simp only [List.mem_append, List.mem_singleton, mem_walkAll tree, eq_comm (a := x)] at inC inD
      exact different (eq_of_siblings tree ((mem_children tree).mp hc) ((mem_children tree).mp hd)
        inC inD)

theorem mem_walkAll_root (tree : t.Contained) : x ∈ t.walkAll root ↔ x ≠ root ∧ x < t.size := by
  rw [mem_walkAll tree]
  constructor
  · intro mem
    refine ⟨Nat.ne_of_gt (lt_of_mem_ancestors tree mem), ?_⟩
    exact lt_of_ancestors_ne_nil (List.ne_nil_of_mem mem)
  · rintro ⟨not_root, present⟩
    exact root_mem_ancestors tree present not_root

theorem walkAll_eq_nil_of_isLeaf (h : t.isLeaf id = true) : t.walkAll id = [] := by
  rw [walkAll_eq, children_eq_nil_of_isLeaf h, List.flatMap_nil]

/-! ## Leaves -/

/-- The leaves at and below a node, from a walk. -/
def leavesBelow (t : Tree) (id : NodeId) : List NodeId :=
  (t.walkAll id ++ [id]).filter t.isLeaf

theorem leavesBelow_of_isLeaf (h : t.isLeaf id = true) : t.leavesBelow id = [id] := by
  simp [leavesBelow, walkAll_eq_nil_of_isLeaf h, h]

theorem leavesBelow_of_container (h : t.isLeaf id = false) :
    t.leavesBelow id = (t.children id).flatMap t.leavesBelow := by
  have not_here : [id].filter t.isLeaf = [] := by simp [h]
  rw [leavesBelow, List.filter_append, not_here, List.append_nil, walkAll_eq, List.filter_flatMap]
  rfl

theorem leavesOf_eq (t : Tree) (stack : List NodeId) :
    t.leavesOf stack = stack.flatMap t.leavesBelow := by
  fun_induction leavesOf t stack with
  | case1 => rfl
  | case2 id stack isLeaf ih => rw [ih, List.flatMap_cons, leavesBelow_of_isLeaf isLeaf]; rfl
  | case3 id stack container ih =>
    rw [ih, List.flatMap_append, List.flatMap_cons,
      leavesBelow_of_container (Bool.eq_false_iff.mpr container)]

theorem descendantLeaves_eq (t : Tree) (id : NodeId) :
    t.descendantLeaves id = t.leavesBelow id := by
  rw [descendantLeaves, leavesOf_eq, List.flatMap_singleton]

theorem descendantLeaves_of_container (container : t.isLeaf id = false) :
    t.descendantLeaves id = (t.walkAll id).filter t.isLeaf := by
  rw [descendantLeaves_eq, leavesBelow, List.filter_append]
  simp [container]

theorem mem_descendantLeaves (tree : t.Contained) (container : t.isLeaf id = false) :
    x ∈ t.descendantLeaves id ↔ t.isLeaf x = true ∧ id ∈ t.ancestors x := by
  rw [descendantLeaves_of_container container, List.mem_filter, mem_walkAll tree, and_comm]

theorem descendantLeaves_nodup (tree : t.Contained) (container : t.isLeaf id = false) :
    (t.descendantLeaves id).Nodup := by
  rw [descendantLeaves_of_container container]
  exact (walkAll_nodup tree id).filter _

end ClassCoupling.Tree
