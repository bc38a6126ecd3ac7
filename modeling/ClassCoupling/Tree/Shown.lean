import ClassCoupling.Tree.Names
import ClassCoupling.Tree.Walk

/-!
# What the tree shows

Which node shows a leaf, which leaves a node stands for, and which links between shown nodes follow
from the links between leaves: all of it is computed from the list modes.
-/

namespace ClassCoupling.Tree

/-- The leaves a node stands for when it is shown. -/
def containedLeaves (t : Tree) (id : NodeId) : List NodeId :=
  if t.isLeaf id then [id]
  else
    match t.mode id with
    | .collapsed => t.descendantLeaves id
    | .leafsCollapsed => (t.children id).filter fun child => t.isLeaf child
    | .expanded => []

def hasOwnContent (t : Tree) (id : NodeId) : Bool := !(t.containedLeaves id).isEmpty

def unitCount (t : Tree) (id : NodeId) : Nat := (t.containedLeaves id).length

/-- The node that shows `id`. A leaf in a leafs-collapsed container is shown by that container; the
outermost collapsed ancestor shows everything below it. -/
def representative (t : Tree) (id : NodeId) : NodeId :=
  let merged :=
    match t.parent? id with
    | some p => if t.isLeaf id ∧ t.mode p = .leafsCollapsed then p else id
    | none => id
  (t.ancestors id).foldl
    (fun shown ancestor => if t.mode ancestor = .collapsed then ancestor else shown) merged

/-- The end of a link that is looked for. -/
inductive Side where
  | outgoing
  | incoming
  deriving DecidableEq, Repr

def rawLinks (t : Tree) : Side → NodeId → List NodeId
  | .outgoing, id => t.uses id
  | .incoming, id => t.usedBy id

/-- The nodes linked to a node as shown. A container is never linked to itself. -/
def shownLinks (t : Tree) (side : Side) (id : NodeId) : List NodeId :=
  if t.isLeaf id then ((t.rawLinks side id).map t.representative).eraseDups
  else
    let raw :=
      if t.mode id = .expanded then
        (t.children id).attach.flatMap fun ⟨child, _⟩ => t.shownLinks side child
      else (t.containedLeaves id).flatMap fun leaf => t.rawLinks side leaf
    ((raw.eraseDups.map t.representative).filter (· ≠ id)).eraseDups
termination_by t.size - id
decreasing_by
  have := lt_of_mem_children ‹child ∈ _›
  omega

theorem shownLinks_eq (t : Tree) (side : Side) (id : NodeId) :
    t.shownLinks side id =
      if t.isLeaf id then ((t.rawLinks side id).map t.representative).eraseDups
      else
        let raw :=
          if t.mode id = .expanded then (t.children id).flatMap fun child => t.shownLinks side child
          else (t.containedLeaves id).flatMap fun leaf => t.rawLinks side leaf
        ((raw.eraseDups.map t.representative).filter (· ≠ id)).eraseDups := by
  rw [shownLinks]; simp

def successors (t : Tree) (id : NodeId) : List NodeId := t.shownLinks .outgoing id

def predecessors (t : Tree) (id : NodeId) : List NodeId := t.shownLinks .incoming id

/-- The leaves that can explain a link of a node; those below an expanded container count too. -/
def reasonLeaves (t : Tree) (id : NodeId) : List NodeId :=
  if !t.isLeaf id && t.mode id = .expanded then t.descendantLeaves id else t.containedLeaves id

/-- The links between leaves behind the link from one node to another. -/
def reasons (t : Tree) (source target : NodeId) : List (NodeId × NodeId) :=
  let targets := t.reasonLeaves target
  (t.reasonLeaves source).flatMap fun leaf =>
    ((t.uses leaf).filter fun used => targets.contains used).map fun used => (leaf, used)

/-- The reasons of a link, each leaf named as seen from its end of the link. -/
def explain (t : Tree) (source target : NodeId) : List (String × String) :=
  (t.reasons source target).map fun (leaf, used) =>
    ((t.relativeName? leaf source).getD (t.fullName leaf),
      (t.relativeName? used target).getD (t.fullName used))

end ClassCoupling.Tree
