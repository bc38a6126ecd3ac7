import ClassCoupling.Proofs.Tree.Likeness
import ClassCoupling.Proofs.Tree.Reachable
import ClassCoupling.View.Granularity

/-!
# What a granularity leaves of the modes before it

A granularity decides the mode of every container below the root from its name and place alone, so
of several granularities only the last one matters, and trees that differ in modes look alike after
it. The changes it counts are those that the generation counts.
-/

namespace ClassCoupling.Granularity

open Tree

variable {t t' : Tree} {granularity : Granularity}

theorem modeFor_eq (same : SameShape t t') (container : NodeId) :
    granularity.modeFor t' container = granularity.modeFor t container := by
  simp only [modeFor, same.parent?, same.name]

/-- Shows one container as the granularity has it, and counts the change. -/
def setFor (granularity : Granularity) (state : Tree × Nat) (container : NodeId) : Tree × Nat :=
  let (t, different) := state.1.setMode container (granularity.modeFor state.1 container)
  (t, if different then state.2 + 1 else state.2)

theorem apply_eq (t : Tree) (granularity : Granularity) :
    granularity.apply t =
      ((t.walkAll root).filter fun node => !t.isLeaf node).foldl (setFor granularity) (t, 0) :=
  rfl

theorem node?_setAll (containers : List NodeId) (changed : Nat) (id : NodeId) :
    (containers.foldl (setFor granularity) (t, changed)).1.node? id = (t.node? id).map fun node =>
      if id ∈ containers then { node with mode := granularity.modeFor t id } else node := by
  induction containers generalizing t changed with
  | nil => simp
  | cons container containers ih =>
    have same := sameShape_setMode (t := t) container (granularity.modeFor t container)
    rw [List.foldl_cons, setFor, ih, node?_setMode, Option.map_map, modeFor_eq same]
    congr 1
    funext node
    by_cases first : id = container
    · subst first
      by_cases again : id ∈ containers <;> simp [again]
    · simp [first]

theorem node?_apply (tree : t.Contained) (id : NodeId) :
    (granularity.apply t).1.node? id = (t.node? id).map fun node =>
      if id ≠ root ∧ t.isLeaf id = false then { node with mode := granularity.modeFor t id }
      else node := by
  rw [apply_eq, node?_setAll]
  cases found : t.node? id with
  | none => rfl
  | some node =>
    have present := node?_lt found
    simp [mem_walkAll_root tree, present]

theorem sameShape_apply (tree : t.Contained) : SameShape t (granularity.apply t).1 :=
  .of_map (node?_apply tree) fun _ => .ite _ (keepsPlace_mode _)

/-- A granularity is a run of changes of list modes. -/
theorem exists_changes_apply (t : Tree) (granularity : Granularity) :
    ∃ changes : List Change, (granularity.apply t).1 = changes.foldl perform t := by
  rw [apply_eq]
  generalize (t.walkAll root).filter _ = containers
  generalize (0 : Nat) = changed
  induction containers generalizing t changed with
  | nil => exact ⟨[], rfl⟩
  | cons container containers ih =>
    obtain ⟨changes, later⟩ := ih (t.setMode container (granularity.modeFor t container)).1 _
    exact ⟨.setMode container (granularity.modeFor t container) :: changes, later⟩

theorem reachable_apply (reached : t.Reachable) : (granularity.apply t).1.Reachable := by
  obtain ⟨changes, same⟩ := exists_changes_apply t granularity
  rw [same]
  exact reached.run changes

/-- The last granularity decides. -/
theorem nodes_apply_apply (tree : t.Contained) (earlier later : Granularity) :
    (later.apply (earlier.apply t).1).1.nodes = (later.apply t).1.nodes := by
  have same : SameShape t (earlier.apply t).1 := sameShape_apply tree
  apply Array.ext_getElem?
  intro id
  change (later.apply (earlier.apply t).1).1.node? id = (later.apply t).1.node? id
  rw [node?_apply (tree.of_sameShape same), node?_apply tree, node?_apply tree, Option.map_map,
    modeFor_eq same, same.isLeaf]
  congr 1
  funext node
  by_cases set : id ≠ root ∧ t.isLeaf id = false
  · simp [set]
  · simp [set]

/-! ## What it makes of different modes -/

theorem mode_apply (tree : t.Contained) {id : NodeId} (present : id < t.size)
    (container : t.isLeaf id = false) :
    (granularity.apply t).1.mode id =
      if id = root then t.mode root else granularity.modeFor t id := by
  obtain ⟨node, found⟩ := Option.isSome_iff_exists.mp (node?_isSome_of_lt present)
  by_cases top : id = root
  · subst top
    simp [Tree.mode, node?_apply tree, found]
  · simp [Tree.mode, node?_apply tree, found, container, top]

theorem sameLinks_apply (tree : t.Contained) : SameLinks t (granularity.apply t).1 := by
  refine .of_map (node?_apply tree) ?_ ?_ <;> intro id node <;> split <;> rfl

theorem missing_apply (tree : t.Contained) : (granularity.apply t).1.missing = t.missing := by
  refine missing_of_map (node?_apply tree) ?_
  intro id node
  split <;> rfl

theorem sameGraph_apply (tree : t.Contained) : SameGraph t (granularity.apply t).1 where
  shape := sameShape_apply tree
  links := sameLinks_apply tree
  root_mode := by rw [mode_apply tree tree.size_pos tree.root_isLeaf, if_pos rfl]

theorem alike_apply (tree : t.Contained) (same : SameGraph t t') :
    Alike (granularity.apply t).1 (granularity.apply t').1 := by
  have tree' := tree.of_sameShape same.shape
  have graph : SameGraph (granularity.apply t).1 (granularity.apply t').1 :=
    (sameGraph_apply tree).symm.trans (same.trans (sameGraph_apply tree'))
  refine ⟨graph.shape, graph.links, ?_⟩
  intro id container
  by_cases present : id < t.size
  · rw [(sameShape_apply tree).isLeaf] at container
    have container' : t'.isLeaf id = false := by rw [same.shape.isLeaf]; exact container
    have present' : id < t'.size := by rw [same.shape.size]; exact present
    rw [mode_apply tree present container, mode_apply tree' present' container', same.root_mode,
      modeFor_eq same.shape]
  · have beyond : ∀ {other : Tree}, SameShape t other → other.mode id = .expanded := by
      intro other shape
      rw [Tree.mode, node?_eq_none]
      rw [shape.size]
      exact Nat.le_of_not_lt present
    rw [beyond (sameShape_apply tree), beyond (same.shape.trans (sameShape_apply tree'))]

/-! ## Counting the changes -/

/-- The containers that are not shown as the granularity has it. -/
def pending (granularity : Granularity) (t : Tree) (containers : List NodeId) : List NodeId :=
  containers.filter fun container => t.mode container ≠ granularity.modeFor t container

/-- Each container that was shown another way counts once, here and in the generation. -/
theorem setAll_counts (granularity : Granularity) (containers : List NodeId)
    (nodup : containers.Nodup) (present : ∀ container ∈ containers, container < t.size)
    (changed : Nat) :
    (containers.foldl (setFor granularity) (t, changed)).2 =
        changed + (granularity.pending t containers).length ∧
      (containers.foldl (setFor granularity) (t, changed)).1.generation =
        t.generation + (granularity.pending t containers).length := by
  induction containers generalizing t changed with
  | nil => exact ⟨rfl, rfl⟩
  | cons container containers ih =>
    obtain ⟨new, nodup⟩ := List.nodup_cons.mp nodup
    rw [List.forall_mem_cons] at present
    by_cases known : t.mode container = granularity.modeFor t container
    · have step : setFor granularity (t, changed) container = (t, changed) := by
        simp [setFor, setMode_of_eq known]
      have rest : granularity.pending t (container :: containers) =
          granularity.pending t containers := by
        simp [pending, known]
      rw [List.foldl_cons, step, rest]
      exact ih nodup present.2 changed
    · have same := sameShape_setMode (t := t) container (granularity.modeFor t container)
      have set := setMode_of_ne present.1 known
      have step : setFor granularity (t, changed) container =
          ((t.setMode container (granularity.modeFor t container)).1, changed + 1) := by
        simp [setFor, set.1]
      have rest : granularity.pending t (container :: containers) = container ::
          granularity.pending (t.setMode container (granularity.modeFor t container)).1
            containers := by
        rw [pending, List.filter_cons_of_pos (by simpa using known), pending]
        congr 1
        apply List.filter_congr
        intro other listed
        have elsewhere : other ≠ container := fun here => new (here ▸ listed)
        rw [mode_setMode_of_ne _ elsewhere, modeFor_eq same]
      have later := ih nodup (fun other listed => by rw [same.size]; exact present.2 other listed)
        (changed + 1)
      rw [List.foldl_cons, step, rest, later.1, later.2, set.2, List.length_cons]
      omega

/-- The containers whose mode is another one in the second tree. -/
def changedContainers (t t' : Tree) : List NodeId :=
  (List.range t.size).filter fun id => !t.isLeaf id && t'.mode id ≠ t.mode id

theorem pending_perm (tree : t.Contained) :
    (granularity.pending t ((t.walkAll root).filter fun node => !t.isLeaf node)).Perm
      (changedContainers t (granularity.apply t).1) := by
  have nodup := ((walkAll_nodup tree root).filter fun node => !t.isLeaf node)
  apply (List.perm_ext_iff_of_nodup (nodup.filter _) (List.nodup_range.filter _)).mpr
  intro id
  simp only [List.mem_filter, mem_walkAll_root tree, List.mem_range, Bool.not_eq_true',
    Bool.and_eq_true, decide_eq_true_eq]
  constructor
  · rintro ⟨⟨⟨below, present⟩, container⟩, different⟩
    rw [mode_apply tree present container, if_neg below]
    exact ⟨present, container, different.symm⟩
  · rintro ⟨present, container, different⟩
    rw [mode_apply tree present container] at different
    by_cases top : id = root
    · rw [if_pos top, top] at different
      exact absurd rfl different
    · rw [if_neg top] at different
      exact ⟨⟨⟨top, present⟩, container⟩, different.symm⟩

theorem apply_counts (tree : t.Contained) :
    (granularity.apply t).2 = (changedContainers t (granularity.apply t).1).length ∧
      (granularity.apply t).1.generation = t.generation + (granularity.apply t).2 := by
  have counts := granularity.setAll_counts (t := t)
    ((t.walkAll root).filter fun node => !t.isLeaf node)
    ((walkAll_nodup tree root).filter _)
    (fun id listed => ((mem_walkAll_root tree).mp (List.mem_filter.mp listed).1).2) 0
  rw [← apply_eq, Nat.zero_add] at counts
  exact ⟨counts.1.trans (pending_perm tree).length_eq, by rw [counts.2, counts.1]⟩

theorem setAll_eq_self {containers : List NodeId} (changed : Nat)
    (settled : ∀ container ∈ containers, t.mode container = granularity.modeFor t container) :
    containers.foldl (setFor granularity) (t, changed) = (t, changed) := by
  induction containers with
  | nil => rfl
  | cons container containers ih =>
    rw [List.forall_mem_cons] at settled
    have step : setFor granularity (t, changed) container = (t, changed) := by
      simp [setFor, setMode_of_eq settled.1]
    rw [List.foldl_cons, step]
    exact ih settled.2

theorem apply_apply (tree : t.Contained) :
    granularity.apply (granularity.apply t).1 = ((granularity.apply t).1, 0) := by
  have same : SameShape t (granularity.apply t).1 := sameShape_apply tree
  rw [apply_eq]
  apply setAll_eq_self
  intro id listed
  obtain ⟨below, container⟩ := List.mem_filter.mp listed
  rw [Bool.not_eq_true', same.isLeaf] at container
  obtain ⟨not_root, present⟩ := (mem_walkAll_root (tree.of_sameShape same)).mp below
  rw [same.size] at present
  rw [mode_apply tree present container, if_neg not_root, modeFor_eq same]

end ClassCoupling.Granularity
