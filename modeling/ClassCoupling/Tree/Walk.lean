import ClassCoupling.Total
import ClassCoupling.Tree.Basic

/-!
# Walks over the tree

All walks give children before their containers, siblings in the order of creation.
-/

namespace ClassCoupling.Tree

/-- All nodes below a node. -/
def walkAll (t : Tree) (id : NodeId) : List NodeId :=
  (t.children id).attach.flatMap fun ⟨child, _⟩ => t.walkAll child ++ [child]
termination_by t.size - id
decreasing_by
  have := lt_of_mem_children ‹child ∈ _›
  omega

theorem walkAll_eq (t : Tree) (id : NodeId) :
    t.walkAll id = (t.children id).flatMap fun child => t.walkAll child ++ [child] := by
  rw [walkAll]; simp

/-- The nodes below a node that are shown: a collapsed container hides everything below it, a
leafs-collapsed one only its own leaves. -/
def walkVisible (t : Tree) (id : NodeId) : List NodeId :=
  if t.mode id = .collapsed then []
  else
    (t.children id).attach.flatMap fun ⟨child, _⟩ =>
      if t.mode id = .leafsCollapsed ∧ t.isLeaf child then []
      else t.walkVisible child ++ [child]
termination_by t.size - id
decreasing_by
  have := lt_of_mem_children ‹child ∈ _›
  omega

theorem walkVisible_eq (t : Tree) (id : NodeId) :
    t.walkVisible id =
      if t.mode id = .collapsed then []
      else
        (t.children id).flatMap fun child =>
          if t.mode id = .leafsCollapsed ∧ t.isLeaf child then []
          else t.walkVisible child ++ [child] := by
  rw [walkVisible]; simp

/-- The number of nodes at and below a node. -/
def weight (t : Tree) (id : NodeId) : Nat :=
  total ((t.children id).attach.map fun ⟨child, _⟩ => t.weight child) + 1
termination_by t.size - id
decreasing_by
  have := lt_of_mem_children ‹child ∈ _›
  omega

theorem weight_eq (t : Tree) (id : NodeId) :
    t.weight id = total ((t.children id).map t.weight) + 1 := by
  rw [weight]; simp

/-- The leaves at and below the nodes of a stack. -/
def leavesOf (t : Tree) : List NodeId → List NodeId
  | [] => []
  | id :: stack =>
    if t.isLeaf id then id :: t.leavesOf stack else t.leavesOf (t.children id ++ stack)
termination_by stack => total (stack.map t.weight)
decreasing_by
  all_goals
    have := t.weight_eq id
    simp only [List.map_append, total_append, List.map_cons, total_cons]
    omega

/-- Every leaf at or below a node, depth first. -/
def descendantLeaves (t : Tree) (id : NodeId) : List NodeId :=
  t.leavesOf [id]

end ClassCoupling.Tree
