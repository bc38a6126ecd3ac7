import ClassCoupling.Proofs.Tree.Containment
import Mathlib.Logic.Relation

/-!
# Collecting leaves

The leaves below a container are collected by a loop over a stack of nodes. It trusts the numbers of
the children it finds and keeps no record of where it has been; still it comes to an end, since in a
reachable tree no node lies below itself. It finds the leaves in the order in which a recursive walk
meets them.
-/

namespace ClassCoupling.Tree

open Relation

variable {t : Tree} {id : NodeId} {stack : List NodeId}

/-! ## Rounds of the loop -/

/-- A collection on its way: the nodes that are still to be looked at, the next one last, and the
leaves found so far. -/
structure Collection where
  stack : List NodeId
  found : List NodeId

namespace Collection

/-- One round takes the last node off the stack. A leaf is found; the children of a container go on
the stack, the first one last. There is no next round once the stack is empty, nor for a node that
does not exist. -/
def next? (t : Tree) (c : Collection) : Option Collection := do
  let id ← c.stack.getLast?
  let node ← t.node? id
  match node.content with
  | .leaf _ _ _ => some ⟨c.stack.dropLast, c.found ++ [id]⟩
  | .container children => some ⟨c.stack.dropLast ++ (children.map (·.2)).reverse, c.found⟩

theorem next?_of_isLeaf (stack found : List NodeId) (leaf : t.isLeaf id = true) :
    next? t ⟨stack ++ [id], found⟩ = some ⟨stack, found ++ [id]⟩ := by
  rw [isLeaf_eq] at leaf
  cases here : t.node? id with
  | none => simp [here] at leaf
  | some node => obtain ⟨_, _, _, _ | _⟩ := node <;> simp_all [next?, Content.kind]

theorem next?_of_container (stack found : List NodeId) (present : id < t.size)
    (container : t.isLeaf id = false) :
    next? t ⟨stack ++ [id], found⟩ =
      some ⟨stack ++ ((t.registered id).map (·.2)).reverse, found⟩ := by
  obtain ⟨node, here⟩ := Option.isSome_iff_exists.mp (node?_isSome_of_lt present)
  rw [isLeaf_eq] at container
  rw [registered_eq]
  obtain ⟨_, _, _, _ | _⟩ := node <;> simp_all [next?, Content.kind, Content.children]

/-- The loop ends, having found these leaves. -/
def EndsWith (t : Tree) (c : Collection) (leaves : List NodeId) : Prop :=
  ReflTransGen (fun c c' => next? t c = some c') c ⟨[], leaves⟩

/-- Whatever is on the stack, the loop goes on to find the leaves at and below it. -/
theorem endsWith_leavesOf (tree : t.Contained) (found : List NodeId)
    (present : ∀ x ∈ stack, x < t.size) :
    EndsWith t ⟨stack.reverse, found⟩ (found ++ t.leavesOf stack) := by
  -- The list that `leavesOf` recurses on is the stack read from its top.
  fun_induction leavesOf t stack generalizing found with
  | case1 =>
    rw [List.append_nil]
    exact .refl
  | case2 id stack leaf ih =>
    have rest := ih (found ++ [id]) fun x mem => present x (List.mem_cons_of_mem _ mem)
    rw [List.append_assoc, List.singleton_append] at rest
    rw [List.reverse_cons]
    exact .head (next?_of_isLeaf stack.reverse found leaf) rest
  | case3 id stack container ih =>
    have rest := ih found fun x mem => by
      rcases List.mem_append.mp mem with child | later
      · exact (lt_of_mem_children child).2
      · exact present x (List.mem_cons_of_mem _ later)
    have round := next?_of_container stack.reverse found
      (present id List.mem_cons_self) (Bool.eq_false_iff.mpr container)
    rw [← tree.children_eq, ← List.reverse_append] at round
    rw [List.reverse_cons]
    exact .head round rest

end Collection

/-! ## The loop and the walk -/

/-- The loop that collects the leaves below a container ends. What it finds are the leaves that the
walk below the container meets, in that order: all leaves that have it among their ancestors, each
once. -/
theorem collected_leaves_are_walked (reached : t.Reachable) (present : id < t.size)
    (container : t.isLeaf id = false) :
    Collection.EndsWith t ⟨[id], []⟩ (t.descendantLeaves id) ∧
    t.descendantLeaves id = (t.walkAll id).filter t.isLeaf ∧
    (t.descendantLeaves id).Nodup ∧
    ∀ x, x ∈ t.descendantLeaves id ↔ t.isLeaf x = true ∧ id ∈ t.ancestors x := by
  have tree := reached.wellFormed.toContained
  refine ⟨?_, descendantLeaves_of_container container, descendantLeaves_nodup tree container,
    fun x => mem_descendantLeaves tree container⟩
  have alone : ∀ x ∈ [id], x < t.size := fun x here => List.mem_singleton.mp here ▸ present
  exact Collection.endsWith_leavesOf tree [] alone

/-- A container that was filled on both sides of another one: its leaves are not collected in the
order of their numbers. -/
def interleaved : Tree :=
  [.createLeaf root "a.b.C", .createLeaf root "D", .createLeaf root "a.E",
    .createContainer root "a.f", .createLeaf root "a.b.G", .setMode 2 .collapsed].foldl
    perform .empty

theorem collected_leaves_are_walked_interleaved :
    interleaved.Reachable ∧ 1 < interleaved.size ∧ interleaved.isLeaf 1 = false ∧
    Collection.EndsWith interleaved ⟨[1], []⟩ [3, 7, 5] ∧
    interleaved.walkAll 1 = [3, 7, 2, 5, 6] ∧
    (interleaved.walkAll 1).filter interleaved.isLeaf = [3, 7, 5] ∧
    1 ∈ interleaved.ancestors 7 := by
  have reached : interleaved.Reachable := Reachable.empty.run _
  have size : interleaved.size = 8 := by with_unfolding_all rfl
  have present : 1 < interleaved.size := by omega
  have container : interleaved.isLeaf 1 = false := by with_unfolding_all rfl
  have leaves : interleaved.descendantLeaves 1 = [3, 7, 5] := by with_unfolding_all rfl
  obtain ⟨ends, walked, -, below⟩ := collected_leaves_are_walked reached present container
  rw [leaves] at ends walked below
  exact ⟨reached, present, container, ends, by with_unfolding_all rfl, walked.symm,
    ((below 7).mp (by simp)).2⟩

end ClassCoupling.Tree
