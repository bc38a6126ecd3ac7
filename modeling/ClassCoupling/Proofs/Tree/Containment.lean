import ClassCoupling.Proofs.Tree.Ancestry
import ClassCoupling.Proofs.Tree.Reachable
import Mathlib.Data.List.Chain

/-!
# The place of every node

In a reachable tree every node but the root has one place: one older container registers it, once
and under its own name. The way up from any node ends at the root, and the two ends of every link
agree.
-/

namespace ClassCoupling.Tree

variable {t : Tree} {id p : NodeId}

/-! ## Children by name -/

theorem lookup_eq_some_iff_mem {name : String} {children : List (String × NodeId)}
    (nodup : (children.map (·.1)).Nodup) :
    children.lookup name = some id ↔ (name, id) ∈ children := by
  induction children with
  | nil => simp
  | cons entry children ih =>
    obtain ⟨fresh, nodup⟩ := List.nodup_cons.mp nodup
    rw [List.lookup_cons, List.mem_cons]
    by_cases same : name = entry.1
    · have absent : (name, id) ∉ children := fun mem =>
        fresh (List.mem_map.mpr ⟨(name, id), mem, same⟩)
      simp [same, Prod.ext_iff, eq_comm, same ▸ absent]
    · have other : (name, id) ≠ entry := fun equal => same (congrArg Prod.fst equal)
      rw [beq_false_of_ne same]
      simp [other, ih nodup]

/-- The child of a name is the node of that name and parent. -/
theorem Contained.child?_eq_some_iff (tree : t.Contained) {name : String} :
    t.child? p name = some id ↔ t.parent? id = some p ∧ t.name id = name := by
  rw [child?, lookup_eq_some_iff_mem (tree.names_nodup p), tree.mem_registered]

theorem Contained.count_registered (tree : t.Contained) (above : t.parent? id = some p) :
    (t.registered p).count (t.name id, id) = 1 := by
  apply List.count_eq_one_of_mem
  · exact (tree.names_nodup p).of_map _
  · exact tree.mem_registered.mpr ⟨above, rfl⟩

/-- A walk over the children leaves none of them out. -/
theorem Contained.children_eq (tree : t.Contained) (id : NodeId) :
    t.children id = (t.registered id).map (·.2) := by
  apply List.filter_eq_self.mpr
  intro child listed
  obtain ⟨⟨name, child⟩, entry, rfl⟩ := List.mem_map.mp listed
  have above := (tree.mem_registered.mp entry).1
  simpa using ⟨tree.parent_lt above, lt_of_parent?_eq_some above⟩

/-! ## The way up -/

theorem Contained.parent?_eq_none_iff (tree : t.Contained) (present : id < t.size) :
    t.parent? id = none ↔ id = root := by
  constructor
  · intro top
    by_contra not_root
    obtain ⟨p, above⟩ := tree.has_parent present not_root
    simp [top] at above
  · intro is_root
    rw [is_root, tree.root_parent]

/-- Every step of the way up goes to the parent, and the last one to the root. -/
theorem Contained.ancestors_spec (tree : t.Contained) (present : id < t.size) :
    (id :: t.ancestors id).IsChain (fun a b => t.parent? a = some b) ∧
      (id :: t.ancestors id).getLast? = some root := by
  induction id using ancestors_induction tree with
  | top id h =>
    rw [ancestors_eq_nil h]
    refine ⟨.singleton id, ?_⟩
    simpa using (tree.parent?_eq_none_iff present).mp h
  | below id p h ih =>
    obtain ⟨chain, last⟩ := ih (Nat.lt_trans (tree.parent_lt h) present)
    rw [ancestors_eq tree h]
    refine ⟨List.isChain_cons_cons.mpr ⟨h, chain⟩, ?_⟩
    rw [List.getLast?_cons_cons]
    exact last

/-! ## The invariant of a tree -/

/-- Whatever was done to a tree, nodes and their containers agree, and so do the ends of links. -/
theorem reachable_isContained (reached : t.Reachable) :
    (root < t.size ∧ t.isLeaf root = false ∧
      ∀ id < t.size, t.parent? id = none ↔ id = root) ∧
    (∀ id < t.size, id ≠ root → t.name id ≠ "" ∧
      ∃ p < id, t.parent? id = some p ∧ t.isLeaf p = false ∧
        (t.registered p).count (t.name id, id) = 1 ∧
        ∀ q name, (name, id) ∈ t.registered q → q = p ∧ name = t.name id) ∧
    (∀ id < t.size, (id :: t.ancestors id).IsChain (fun a b => t.parent? a = some b) ∧
      (id :: t.ancestors id).getLast? = some root) ∧
    (∀ id, ((t.registered id).map (·.1)).Nodup ∧
      t.children id = (t.registered id).map (·.2) ∧
      (∀ entry ∈ t.registered id, entry.2 < t.size) ∧
      (t.isLeaf id = true → t.children id = [])) ∧
    (∀ a, (t.uses a).Nodup ∧ (t.usedBy a).Nodup ∧
      (∀ b ∈ t.uses a, t.isLeaf a = true ∧ t.isLeaf b = true) ∧
      (∀ b ∈ t.usedBy a, t.isLeaf a = true ∧ t.isLeaf b = true) ∧
      ∀ b, b ∈ t.uses a ↔ a ∈ t.usedBy b) := by
  have wf := reached.wellFormed
  have tree := wf.toContained
  refine ⟨⟨tree.size_pos, tree.root_isLeaf, ?_⟩, ?_, ?_, ?_, ?_⟩
  · intro id present
    exact tree.parent?_eq_none_iff present
  · intro id present not_root
    obtain ⟨p, above⟩ := tree.has_parent present not_root
    refine ⟨tree.name_ne present not_root, p, tree.parent_lt above, above, tree.isLeaf_parent above,
      tree.count_registered above, ?_⟩
    intro q name entry
    obtain ⟨aboveQ, named⟩ := tree.mem_registered.mp entry
    exact ⟨Option.some.inj (aboveQ.symm.trans above), named.symm⟩
  · intro id present
    exact tree.ancestors_spec present
  · intro id
    refine ⟨tree.names_nodup id, tree.children_eq id, ?_, children_eq_nil_of_isLeaf⟩
    intro entry listed
    exact tree.lt_of_mem_registered listed
  · intro a
    refine ⟨wf.uses_nodup a, wf.usedBy_nodup a, ?_, ?_, fun b => wf.mem_usedBy.symm⟩
    · intro b link
      exact ⟨isLeaf_of_mem_uses link, wf.isLeaf link⟩
    · intro b link
      exact ⟨isLeaf_of_mem_usedBy link, isLeaf_of_mem_uses (wf.mem_usedBy.mp link)⟩

/-- A tree whose changes partly failed: a creation below a leaf, one that ends in an empty name
after two containers were made, a link that was there and one to a container. -/
def interrupted : Tree :=
  [.createLeaf root "a.B", .createLeaf root "a.B.c.D", .createContainer root "x.y.",
    .createLeaf 4 "E", .link 2 5, .link 2 5, .link 5 1, .link 5 5, .recordMissing 2 "Z",
    .setMode 1 .collapsed].foldl perform .empty

theorem reachable_isContained_interrupted :
    interrupted.Reachable ∧ interrupted.size = 6 ∧ interrupted.ancestors 5 = [4, 3, 0] ∧
    (5 :: interrupted.ancestors 5).getLast? = some root ∧
    (∃ p < 5, interrupted.parent? 5 = some p ∧
      (interrupted.registered p).count (interrupted.name 5, 5) = 1) ∧
    5 ∈ interrupted.uses 2 ∧ 2 ∈ interrupted.usedBy 5 := by
  have reached : interrupted.Reachable := Reachable.empty.run _
  have size : interrupted.size = 6 := by decide +kernel
  have present : 5 < interrupted.size := by omega
  have link : 5 ∈ interrupted.uses 2 := by decide +kernel
  obtain ⟨-, placed, up, -, links⟩ := reachable_isContained reached
  obtain ⟨-, p, older, above, -, once, -⟩ := placed 5 present (by decide)
  refine ⟨reached, size, by decide +kernel, (up 5 present).2, ⟨p, older, above, once⟩, link, ?_⟩
  exact ((links 2).2.2.2.2 5).mp link

end ClassCoupling.Tree
