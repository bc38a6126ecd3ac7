import ClassCoupling.Proofs.Tree.Ancestry
import ClassCoupling.Tree.Shown
import Mathlib.Data.List.Basic

/-!
# Trees that look alike

What a tree shows is decided by its nodes, its links and the list modes of its containers. Neither
the list mode of a leaf, nor the names that are missing, nor the generation have a part in it.
-/

namespace ClassCoupling.Tree

variable {t t' : Tree}

/-! ## The same nodes -/

section Shape

variable (same : SameShape t t')
include same

theorem SameShape.symm : SameShape t' t :=
  ⟨same.size.symm, same.parent?.symm, same.name.symm, same.isLeaf.symm, same.registered.symm⟩

theorem SameShape.children : t'.children = t.children := by
  funext id
  simp only [Tree.children, same.registered, same.size]

theorem SameShape.ancestors : t'.ancestors = t.ancestors := by
  funext id
  induction id using Nat.strongRecOn with
  | ind id ih =>
    rw [Tree.ancestors, Tree.ancestors.eq_1 t, same.parent?]
    split
    next p above =>
      split
      next lower => rw [ih p lower]
      next => rfl
    next => rfl

theorem SameShape.isAncestor : t'.isAncestor = t.isAncestor := by
  funext a id
  simp only [Tree.isAncestor, same.ancestors]

theorem SameShape.fullName : t'.fullName = t.fullName := by
  funext id
  induction id using Nat.strongRecOn with
  | ind id ih =>
    rw [Tree.fullName, Tree.fullName.eq_1 t, same.parent?, same.name]
    split
    next p above =>
      split
      next lower => rw [ih p lower]
      next => rfl
    next => rfl

theorem SameShape.displayName : t'.displayName = t.displayName := by
  funext id
  simp only [Tree.displayName, same.fullName]

theorem SameShape.relativeName? : t'.relativeName? = t.relativeName? := by
  funext id a
  induction id using Nat.strongRecOn with
  | ind id ih =>
    rw [Tree.relativeName?, Tree.relativeName?.eq_1 t, same.parent?, same.name]
    split
    next => rfl
    next =>
      split
      next p above =>
        split
        next lower => rw [ih p lower]
        next => rfl
      next => rfl

theorem SameShape.walkAll : t'.walkAll = t.walkAll := by
  funext id
  induction id using children_induction (t := t) with
  | step id ih =>
    rw [walkAll_eq, walkAll_eq, same.children]
    exact List.flatMap_congr fun child below => by rw [ih child below]

theorem SameShape.descendantLeaves : t'.descendantLeaves = t.descendantLeaves := by
  funext id
  rw [descendantLeaves_eq, descendantLeaves_eq, leavesBelow, leavesBelow, same.walkAll, same.isLeaf]

end Shape

theorem SameLinks.symm (same : SameLinks t t') : SameLinks t' t :=
  ⟨same.uses.symm, same.usedBy.symm⟩

/-! ## The same view -/

/-- Two trees with the same nodes and links whose containers are shown in the same way. -/
structure Alike (t t' : Tree) : Prop where
  shape : SameShape t t'
  links : SameLinks t t'
  mode : ∀ id, t.isLeaf id = false → t'.mode id = t.mode id

/-- Two trees with the same nodes and links whose roots are shown in the same way. -/
structure SameGraph (t t' : Tree) : Prop where
  shape : SameShape t t'
  links : SameLinks t t'
  root_mode : t'.mode root = t.mode root

namespace SameGraph

theorem refl (t : Tree) : SameGraph t t := ⟨.refl t, ⟨rfl, rfl⟩, rfl⟩

theorem symm (same : SameGraph t t') : SameGraph t' t :=
  ⟨same.shape.symm, same.links.symm, same.root_mode.symm⟩

theorem trans {t'' : Tree} (first : SameGraph t t') (second : SameGraph t' t'') :
    SameGraph t t'' :=
  ⟨first.shape.trans second.shape, ⟨second.links.uses.trans first.links.uses,
    second.links.usedBy.trans first.links.usedBy⟩, second.root_mode.trans first.root_mode⟩

end SameGraph

theorem missing_of_map {f : NodeId → Node → Node}
    (node : ∀ id, t'.node? id = (t.node? id).map (f id))
    (keeps : ∀ id old, (f id old).content.missing = old.content.missing) :
    t'.missing = t.missing := by
  funext id
  rw [missing_eq, missing_eq, node]
  cases t.node? id with
  | none => rfl
  | some old => exact keeps id old

theorem sameGraph_setMode {id : NodeId} (below : id ≠ root) (mode : ListMode) :
    SameGraph t (t.setMode id mode).1 where
  shape := sameShape_setMode id mode
  links := sameLinks_setMode id mode
  root_mode := by simp [Tree.mode, node?_setMode, below.symm]

theorem missing_setMode (id : NodeId) (mode : ListMode) :
    (t.setMode id mode).1.missing = t.missing := by
  refine missing_of_map (node?_setMode id mode) ?_
  intro other node
  split <;> rfl

namespace Alike

theorem refl (t : Tree) : Alike t t := ⟨.refl t, ⟨rfl, rfl⟩, fun _ _ => rfl⟩

theorem trans {t'' : Tree} (first : Alike t t') (second : Alike t' t'') : Alike t t'' where
  shape := first.shape.trans second.shape
  links := ⟨second.links.uses.trans first.links.uses, second.links.usedBy.trans first.links.usedBy⟩
  mode id container := by
    have still : t'.isLeaf id = false := (congrFun first.shape.isLeaf id).trans container
    exact (second.mode id still).trans (first.mode id container)

variable (alike : Alike t t')
include alike

theorem symm : Alike t' t where
  shape := alike.shape.symm
  links := alike.links.symm
  mode id container := by
    rw [alike.shape.isLeaf] at container
    exact (alike.mode id container).symm

theorem containedLeaves : t'.containedLeaves = t.containedLeaves := by
  funext id
  cases leaf : t.isLeaf id with
  | true => simp [Tree.containedLeaves, alike.shape.isLeaf, leaf]
  | false =>
    simp only [Tree.containedLeaves, alike.shape.isLeaf, alike.mode id leaf,
      alike.shape.descendantLeaves, alike.shape.children]

theorem unitCount : t'.unitCount = t.unitCount := by
  funext id
  rw [Tree.unitCount, Tree.unitCount, alike.containedLeaves]

theorem hasOwnContent : t'.hasOwnContent = t.hasOwnContent := by
  funext id
  rw [Tree.hasOwnContent, Tree.hasOwnContent, alike.containedLeaves]

theorem reasonLeaves : t'.reasonLeaves = t.reasonLeaves := by
  funext id
  cases leaf : t.isLeaf id with
  | true => simp [Tree.reasonLeaves, alike.shape.isLeaf, leaf, alike.containedLeaves]
  | false =>
    simp only [Tree.reasonLeaves, alike.shape.isLeaf, alike.mode id leaf,
      alike.shape.descendantLeaves, alike.containedLeaves]

theorem reasons : t'.reasons = t.reasons := by
  funext source target
  simp only [Tree.reasons, alike.reasonLeaves, alike.links.uses]

theorem explain : t'.explain = t.explain := by
  funext source target
  simp only [Tree.explain, alike.reasons, alike.shape.relativeName?, alike.shape.fullName]

theorem walkVisible : t'.walkVisible = t.walkVisible := by
  funext id
  induction id using children_induction (t := t) with
  | step id ih =>
    rw [walkVisible_eq, walkVisible_eq, alike.shape.children, alike.shape.isLeaf]
    cases leaf : t.isLeaf id with
    | true => simp [children_eq_nil_of_isLeaf leaf]
    | false =>
      have below : ∀ child ∈ t.children id, t'.walkVisible child = t.walkVisible child := ih
      rw [alike.mode id leaf]
      split
      · rfl
      · exact List.flatMap_congr fun child listed => by rw [below child listed]

theorem rawLinks : t'.rawLinks = t.rawLinks := by
  funext side id
  cases side with
  | outgoing => rw [Tree.rawLinks, Tree.rawLinks, alike.links.uses]
  | incoming => rw [Tree.rawLinks, Tree.rawLinks, alike.links.usedBy]

variable (tree : t.Contained)
include tree

theorem sameGraph : SameGraph t t' :=
  ⟨alike.shape, alike.links, alike.mode root tree.root_isLeaf⟩

theorem representative : t'.representative = t.representative := by
  funext id
  have collapsed : ∀ shown, ∀ a ∈ t.ancestors id,
      (if t'.mode a = .collapsed then a else shown) =
        if t.mode a = .collapsed then a else shown := by
    intro shown a above
    rw [alike.mode a (isLeaf_of_mem_ancestors tree above)]
  unfold Tree.representative
  rw [alike.shape.parent?, alike.shape.isLeaf, alike.shape.ancestors]
  cases above : t.parent? id with
  | none => exact List.foldl_ext _ _ _ collapsed
  | some p =>
    dsimp only
    rw [alike.mode p (tree.isLeaf_parent above)]
    exact List.foldl_ext _ _ _ collapsed

theorem shownLinks : t'.shownLinks = t.shownLinks := by
  funext side id
  induction id using children_induction (t := t) with
  | step id ih =>
    rw [shownLinks_eq, shownLinks_eq, alike.shape.isLeaf, alike.representative tree, alike.rawLinks,
      alike.shape.children, alike.containedLeaves]
    cases leaf : t.isLeaf id with
    | true => rfl
    | false =>
      have below : ((t.children id).flatMap fun child => t'.shownLinks side child) =
          (t.children id).flatMap fun child => t.shownLinks side child :=
        List.flatMap_congr ih
      rw [alike.mode id leaf, below]

end Alike

end ClassCoupling.Tree
