import ClassCoupling.Proofs.Tree.Change
import Mathlib.Data.List.Nodup

/-!
# Well-formed trees

Containers and their children agree on where a node lies, and both ends of a link record it. Every
tree that can be reached from the empty one has these properties: each change keeps them, a creation
that fails halfway included.
-/

namespace ClassCoupling.Tree

variable {t t' : Tree}

/-- Parents are older containers, and children are registered with them and nowhere else. -/
structure Contained (t : Tree) : Prop where
  size_pos : root < t.size
  root_parent : t.parent? root = none
  root_isLeaf : t.isLeaf root = false
  parent_lt : ∀ {id p}, t.parent? id = some p → p < id
  has_parent : ∀ {id}, id < t.size → id ≠ root → ∃ p, t.parent? id = some p
  name_ne : ∀ {id}, id < t.size → id ≠ root → t.name id ≠ ""
  mem_registered : ∀ {id name child},
    (name, child) ∈ t.registered id ↔ t.parent? child = some id ∧ t.name child = name
  names_nodup : ∀ id, ((t.registered id).map (·.1)).Nodup
  sorted : ∀ id, ((t.registered id).map (·.2)).Pairwise (· < ·)

/-- Links join leaves, once each, and are recorded at both ends. -/
structure Linked (t : Tree) : Prop where
  uses_nodup : ∀ id, (t.uses id).Nodup
  usedBy_nodup : ∀ id, (t.usedBy id).Nodup
  mem_usedBy : ∀ {a b}, a ∈ t.usedBy b ↔ b ∈ t.uses a

structure WellFormed (t : Tree) : Prop extends Contained t, Linked t

theorem Linked.isLeaf (linked : t.Linked) {a b : NodeId} (h : b ∈ t.uses a) : t.isLeaf b = true :=
  isLeaf_of_mem_usedBy (linked.mem_usedBy.mpr h)

theorem Contained.isLeaf_parent (tree : t.Contained) {id p : NodeId} (h : t.parent? id = some p) :
    t.isLeaf p = false :=
  isLeaf_eq_false_of_mem_registered (tree.mem_registered.mpr ⟨h, rfl⟩)

/-! ## What a change keeps -/

theorem Contained.of_sameShape (tree : t.Contained) (same : SameShape t t') : t'.Contained where
  size_pos := by rw [same.size]; exact tree.size_pos
  root_parent := by rw [same.parent?]; exact tree.root_parent
  root_isLeaf := by rw [same.isLeaf]; exact tree.root_isLeaf
  parent_lt := by rw [same.parent?]; exact tree.parent_lt
  has_parent := by rw [same.parent?, same.size]; exact tree.has_parent
  name_ne := by rw [same.name, same.size]; exact tree.name_ne
  mem_registered := by rw [same.registered, same.parent?, same.name]; exact tree.mem_registered
  names_nodup := by rw [same.registered]; exact tree.names_nodup
  sorted := by rw [same.registered]; exact tree.sorted

theorem Linked.of_sameLinks (linked : t.Linked) (same : SameLinks t t') : t'.Linked where
  uses_nodup := by rw [same.uses]; exact linked.uses_nodup
  usedBy_nodup := by rw [same.usedBy]; exact linked.usedBy_nodup
  mem_usedBy := by rw [same.uses, same.usedBy]; exact linked.mem_usedBy

theorem Contained.lt_of_mem_registered (tree : t.Contained) {id child : NodeId} {name : String}
    (h : (name, child) ∈ t.registered id) : child < t.size :=
  lt_of_parent?_eq_some (tree.mem_registered.mp h).1

theorem Contained.adds {parent : NodeId} {name : String} {kind : NodeKind} (tree : t.Contained)
    (added : Adds t t' parent name kind) (name_ne : name ≠ "") : t'.Contained := by
  have off : t.size ≠ parent := Nat.ne_of_gt added.parent_lt
  have root_off : root ≠ t.size := Nat.ne_of_lt tree.size_pos
  refine
    { size_pos := by rw [added.size]; exact Nat.lt_succ_of_lt tree.size_pos
      root_parent := by rw [added.parent?, if_neg root_off]; exact tree.root_parent
      root_isLeaf := by
        have := tree.root_isLeaf
        simpa [isLeaf, added.kind, root_off] using this
      parent_lt := ?_, has_parent := ?_, name_ne := ?_, mem_registered := ?_
      names_nodup := ?_, sorted := ?_ }
  · intro id p h
    rw [added.parent?] at h
    split at h
    · next new =>
      cases h
      exact new ▸ added.parent_lt
    · exact tree.parent_lt h
  · intro id present not_root
    rw [added.parent?]
    split
    · exact ⟨parent, rfl⟩
    · next old => exact tree.has_parent (added.lt_of_ne present old) not_root
  · intro id present not_root
    rw [added.name]
    split
    · exact name_ne
    · next old => exact tree.name_ne (added.lt_of_ne present old) not_root
  · intro id name' child
    rw [added.registered, added.parent?, added.name]
    by_cases new : child = t.size
    · subst new
      have unknown : ∀ id, (name', t.size) ∉ t.registered id := fun id mem =>
        Nat.lt_irrefl _ (tree.lt_of_mem_registered mem)
      by_cases h : id = parent
      · simp [h, unknown, eq_comm]
      · simp [h, unknown, Ne.symm h]
    · by_cases h : id = parent
      · simp [h, new, tree.mem_registered]
      · simp [h, new, tree.mem_registered]
  · intro id
    rw [added.registered]
    split
    · rw [List.map_append, List.nodup_append]
      refine ⟨tree.names_nodup _, by simp, ?_⟩
      intro a old b new same
      obtain ⟨⟨_, child⟩, mem, rfl⟩ := List.mem_map.mp old
      simp only [List.map_cons, List.map_nil, List.mem_singleton] at new
      rw [new] at same
      exact added.fresh child (same ▸ mem)
    · exact tree.names_nodup id
  · intro id
    rw [added.registered]
    split
    · rw [List.map_append, List.pairwise_append]
      refine ⟨tree.sorted _, by simp, ?_⟩
      intro a old b new
      obtain ⟨⟨name', child⟩, mem, rfl⟩ := List.mem_map.mp old
      simp only [List.map_cons, List.map_nil, List.mem_singleton] at new
      subst new
      exact tree.lt_of_mem_registered mem
    · exact tree.sorted id

theorem Linked.links {source target : NodeId} (linked : t.Linked)
    (added : Links t t' source target) : t'.Linked where
  uses_nodup id := by
    rw [added.uses]
    split
    · rw [List.nodup_append]
      refine ⟨linked.uses_nodup _, by simp, ?_⟩
      rintro a mem b new rfl
      rw [List.mem_singleton.mp new] at mem
      exact added.fresh mem
    · exact linked.uses_nodup id
  usedBy_nodup id := by
    rw [added.usedBy]
    split
    · rw [List.nodup_append]
      refine ⟨linked.usedBy_nodup _, by simp, ?_⟩
      rintro a mem b new rfl
      rw [List.mem_singleton.mp new] at mem
      exact added.fresh (linked.mem_usedBy.mp mem)
    · exact linked.usedBy_nodup id
  mem_usedBy {a b} := by
    rw [added.uses, added.usedBy]
    by_cases hb : b = target <;> by_cases ha : a = source <;> simp [ha, hb, linked.mem_usedBy]

theorem WellFormed.adds {parent : NodeId} {name : String} {kind : NodeKind} (wf : t.WellFormed)
    (added : Adds t t' parent name kind) (name_ne : name ≠ "") : t'.WellFormed :=
  ⟨wf.toContained.adds added name_ne, wf.toLinked.of_sameLinks added.links⟩

theorem WellFormed.links {source target : NodeId} (wf : t.WellFormed)
    (added : Links t t' source target) : t'.WellFormed :=
  ⟨wf.toContained.of_sameShape added.shape, wf.toLinked.links added⟩

theorem WellFormed.of_same (wf : t.WellFormed) (shape : SameShape t t') (links : SameLinks t t') :
    t'.WellFormed :=
  ⟨wf.toContained.of_sameShape shape, wf.toLinked.of_sameLinks links⟩

end ClassCoupling.Tree
