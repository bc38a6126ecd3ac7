import ClassCoupling.Snapshot.Coupling
import Mathlib.Data.Nat.Log

/-!
# The baseline of coupling

A snapshot in the shape of a binary tree, in which every node reaches its subtree, has the sum of
its subtree sizes as cumulative coupling. The baseline is that of the tree whose nodes halve what is
below them. One more node adds the number of its levels, which never decreases, so every other way
to divide the nodes costs as much or more.
-/

namespace ClassCoupling

/-! ## Binary trees -/

inductive BinaryTree where
  | empty
  | node (left right : BinaryTree)
  deriving DecidableEq, Repr

namespace BinaryTree

/-- The number of nodes. -/
def size : BinaryTree → Nat
  | empty => 0
  | node left right => left.size + right.size + 1

/-- The subtree of each node. -/
def subtrees : BinaryTree → List BinaryTree
  | empty => []
  | node left right => node left right :: (left.subtrees ++ right.subtrees)

/-- The sum of the sizes of all subtrees. -/
def coupling (t : BinaryTree) : Nat := total (t.subtrees.map size)

@[simp] theorem coupling_empty : coupling empty = 0 := rfl

@[simp] theorem coupling_node (left right : BinaryTree) :
    coupling (node left right) =
      left.size + right.size + 1 + left.coupling + right.coupling := by
  simp [coupling, subtrees, size, Nat.add_assoc]

/-- The tree with `n` nodes in which the subtrees of each node differ by one node at most. -/
def balanced (n : Nat) : BinaryTree :=
  match n with
  | 0 => empty
  | rest + 1 => node (balanced (rest - rest / 2)) (balanced (rest / 2))
termination_by n

theorem size_balanced (n : Nat) : (balanced n).size = n := by
  fun_induction balanced n with
  | case1 => rfl
  | case2 rest larger smaller =>
    rw [size, larger, smaller]
    omega

end BinaryTree

/-! ## One more node -/

theorem log2_le_log2 {m n : Nat} (small : m ≤ n) : Nat.log2 m ≤ Nat.log2 n := by
  rw [Nat.log2_eq_log_two, Nat.log2_eq_log_two]
  exact Nat.log_mono_right small

/-- A node more adds the number of levels that the tree then has. -/
theorem balancedCoupling_succ (n : Nat) :
    balancedCoupling (n + 1) = balancedCoupling n + (Nat.log2 (n + 1) + 1) := by
  induction n using Nat.strongRecOn with
  | ind n ih =>
    cases n with
    | zero => simp [balancedCoupling, Nat.log2_def]
    | succ m =>
      -- Of the two halves one stays, and the other grows by the node.
      have kept : (m + 1) / 2 = m - m / 2 := by omega
      have grown : m + 1 - (m + 1) / 2 = m / 2 + 1 := by omega
      have levels : Nat.log2 (m + 1 + 1) = Nat.log2 (m / 2 + 1) + 1 := by
        have halved : (m + 1 + 1) / 2 = m / 2 + 1 := by omega
        rw [Nat.log2_def, if_pos (by omega), halved]
      have step := ih (m / 2) (by omega)
      rw [balancedCoupling, grown, kept, step, levels, balancedCoupling.eq_2 m]
      omega

theorem balancedCoupling_eq_total (n : Nat) :
    balancedCoupling n = total ((List.range' 1 n).map fun i => Nat.log2 i + 1) := by
  induction n with
  | zero => simp [balancedCoupling]
  | succ n ih => rw [balancedCoupling_succ, ih, List.range'_concat]; simp [Nat.add_comm]

/-! ## Dividing nodes -/

/-- Moving nodes from the larger part to the smaller costs nothing. -/
theorem balancedCoupling_shift {small large : Nat} (ordered : small ≤ large) (moved : Nat) :
    balancedCoupling (small + moved) + balancedCoupling large ≤
      balancedCoupling small + balancedCoupling (large + moved) := by
  induction moved with
  | zero => exact Nat.le_refl _
  | succ moved ih =>
    have levels : Nat.log2 (small + moved + 1) ≤ Nat.log2 (large + moved + 1) :=
      log2_le_log2 (by omega)
    rw [← Nat.add_assoc, ← Nat.add_assoc, balancedCoupling_succ, balancedCoupling_succ]
    omega

theorem balancedCoupling_between_le {small large inner other : Nat}
    (same : inner + other = small + large) (inner_ge : small ≤ inner) (other_ge : small ≤ other) :
    balancedCoupling inner + balancedCoupling other ≤
      balancedCoupling small + balancedCoupling large := by
  obtain ⟨moved, rfl⟩ := Nat.exists_eq_add_of_le inner_ge
  have whole : large = other + moved := by omega
  rw [whole]
  exact balancedCoupling_shift other_ge moved

theorem balancedCoupling_halves_le (left right : Nat) :
    balancedCoupling (left + right - (left + right) / 2) + balancedCoupling ((left + right) / 2) ≤
      balancedCoupling left + balancedCoupling right := by
  rcases Nat.le_total left right with ordered | ordered
  · exact balancedCoupling_between_le (by omega) (by omega) (by omega)
  · rw [Nat.add_comm (balancedCoupling left)]
    exact balancedCoupling_between_le (by omega) (by omega) (by omega)

theorem balancedCoupling_size_le (t : BinaryTree) : balancedCoupling t.size ≤ t.coupling := by
  induction t with
  | empty => simp [BinaryTree.size, balancedCoupling]
  | node left right left_ih right_ih =>
    have halves := balancedCoupling_halves_le left.size right.size
    rw [BinaryTree.size, balancedCoupling, BinaryTree.coupling_node]
    omega

theorem coupling_balanced (n : Nat) : (BinaryTree.balanced n).coupling = balancedCoupling n := by
  fun_induction BinaryTree.balanced n with
  | case1 => simp [balancedCoupling]
  | case2 rest larger smaller =>
    rw [BinaryTree.coupling_node, larger, smaller, BinaryTree.size_balanced,
      BinaryTree.size_balanced, balancedCoupling]
    omega

/-- The baseline for `n` nodes counts the levels of a tree that is filled node by node. It is the
least sum of subtree sizes of all binary trees with `n` nodes. -/
theorem balancedCoupling_is_least :
    (∀ n, balancedCoupling n = total ((List.range' 1 n).map fun i => Nat.log2 i + 1)) ∧
    (∀ t : BinaryTree, balancedCoupling t.size ≤ t.coupling) ∧
    ∀ n, ∃ t : BinaryTree, t.size = n ∧ t.coupling = balancedCoupling n :=
  ⟨balancedCoupling_eq_total, balancedCoupling_size_le,
    fun n => ⟨.balanced n, BinaryTree.size_balanced n, coupling_balanced n⟩⟩

end ClassCoupling
