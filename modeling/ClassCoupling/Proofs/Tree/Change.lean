import ClassCoupling.Tree.Creation
import Mathlib.Tactic.Common

/-!
# What a change does to a tree

Every change is described once, by what it does to the questions a tree answers: a new node, a new
link, a new missing name or another list mode. All that is said about trees later rests on these
descriptions and not on the arrays behind them.
-/

namespace ClassCoupling

namespace Content

def children : Content → List (String × NodeId)
  | container children => children
  | leaf _ _ _ => []

def successors : Content → List NodeId
  | container _ => []
  | leaf successors _ _ => successors

def predecessors : Content → List NodeId
  | container _ => []
  | leaf _ predecessors _ => predecessors

def missing : Content → List String
  | container _ => []
  | leaf _ _ missing => missing

end Content

namespace Tree

variable {t t' : Tree}

theorem node?_lt {id : NodeId} {node : Node} (found : t.node? id = some node) : id < t.size :=
  (Array.getElem?_eq_some_iff.mp found).1

theorem node?_isSome_of_lt {id : NodeId} (present : id < t.size) : (t.node? id).isSome := by
  rw [node?, Array.getElem?_eq_getElem present]
  rfl

theorem node?_eq_none {id : NodeId} (absent : t.size ≤ id) : t.node? id = none :=
  Array.getElem?_eq_none absent

theorem isLeaf_eq (t : Tree) (id : NodeId) :
    t.isLeaf id = (t.node? id).elim false fun node => node.content.kind = .leaf := by
  cases found : t.node? id <;> simp [isLeaf, kind, found]

theorem registered_eq (t : Tree) (id : NodeId) :
    t.registered id = (t.node? id).elim [] (·.content.children) := by
  cases found : t.node? id with
  | none => simp [registered, found]
  | some node => obtain ⟨_, _, _, _ | _⟩ := node <;> simp [registered, found, Content.children]

theorem uses_eq (t : Tree) (id : NodeId) :
    t.uses id = (t.node? id).elim [] (·.content.successors) := by
  cases found : t.node? id with
  | none => simp [uses, found]
  | some node => obtain ⟨_, _, _, _ | _⟩ := node <;> simp [uses, found, Content.successors]

theorem usedBy_eq (t : Tree) (id : NodeId) :
    t.usedBy id = (t.node? id).elim [] (·.content.predecessors) := by
  cases found : t.node? id with
  | none => simp [usedBy, found]
  | some node => obtain ⟨_, _, _, _ | _⟩ := node <;> simp [usedBy, found, Content.predecessors]

theorem missing_eq (t : Tree) (id : NodeId) :
    t.missing id = (t.node? id).elim [] (·.content.missing) := by
  cases found : t.node? id with
  | none => simp [missing, found]
  | some node => obtain ⟨_, _, _, _ | _⟩ := node <;> simp [missing, found, Content.missing]

theorem lt_of_parent?_eq_some {id p : NodeId} (h : t.parent? id = some p) : id < t.size := by
  obtain ⟨node, found, -⟩ := Option.bind_eq_some_iff.mp h
  exact node?_lt found

theorem lt_of_isLeaf {id : NodeId} (h : t.isLeaf id = true) : id < t.size := by
  by_contra absent
  simp [isLeaf_eq, node?_eq_none (Nat.le_of_not_lt absent)] at h

theorem isLeaf_of_mem_uses {id used : NodeId} (h : used ∈ t.uses id) : t.isLeaf id = true := by
  rw [uses_eq] at h
  rw [isLeaf_eq]
  cases found : t.node? id with
  | none => simp [found] at h
  | some node => obtain ⟨_, _, _, _ | _⟩ := node <;> simp_all [Content.successors, Content.kind]

theorem isLeaf_of_mem_usedBy {id user : NodeId} (h : user ∈ t.usedBy id) : t.isLeaf id = true := by
  rw [usedBy_eq] at h
  rw [isLeaf_eq]
  cases found : t.node? id with
  | none => simp [found] at h
  | some node => obtain ⟨_, _, _, _ | _⟩ := node <;> simp_all [Content.predecessors, Content.kind]

theorem isLeaf_eq_false_of_mem_registered {id : NodeId} {entry : String × NodeId}
    (h : entry ∈ t.registered id) : t.isLeaf id = false := by
  rw [registered_eq] at h
  rw [isLeaf_eq]
  cases found : t.node? id with
  | none => simp [found] at h
  | some node => obtain ⟨_, _, _, _ | _⟩ := node <;> simp_all [Content.children, Content.kind]

/-- Two trees with the same nodes in the same places. -/
structure SameShape (t t' : Tree) : Prop where
  size : t'.size = t.size
  parent? : t'.parent? = t.parent?
  name : t'.name = t.name
  isLeaf : t'.isLeaf = t.isLeaf
  registered : t'.registered = t.registered

theorem SameShape.refl (t : Tree) : SameShape t t := ⟨rfl, rfl, rfl, rfl, rfl⟩

theorem SameShape.trans {t'' : Tree} (first : SameShape t t') (second : SameShape t' t'') :
    SameShape t t'' :=
  ⟨second.size.trans first.size, second.parent?.trans first.parent?, second.name.trans first.name,
    second.isLeaf.trans first.isLeaf, second.registered.trans first.registered⟩

/-- Two trees with the same links between leaves. -/
structure SameLinks (t t' : Tree) : Prop where
  uses : t'.uses = t.uses
  usedBy : t'.usedBy = t.usedBy

/-! ## A new node -/

/-- A tree and the one with one more node, the last child of `parent`. -/
structure Adds (t t' : Tree) (parent : NodeId) (newName : String) (newKind : NodeKind) : Prop where
  parent_lt : parent < t.size
  parent_isLeaf : t.isLeaf parent = false
  fresh : ∀ child, (newName, child) ∉ t.registered parent
  size : t'.size = t.size + 1
  generation : t'.generation = t.generation + 1
  parent? : ∀ id, t'.parent? id = if id = t.size then some parent else t.parent? id
  name : ∀ id, t'.name id = if id = t.size then newName else t.name id
  kind : ∀ id, t'.kind id = if id = t.size then newKind else t.kind id
  registered : ∀ id, t'.registered id =
    if id = parent then t.registered parent ++ [(newName, t.size)] else t.registered id
  mode : t'.mode = t.mode
  links : SameLinks t t'
  missing : t'.missing = t.missing

theorem lookup_eq_none_iff {name : String} {children : List (String × NodeId)} :
    children.lookup name = none ↔ ∀ child, (name, child) ∉ children := by
  simp only [List.lookup_eq_none_iff, bne_iff_ne, ne_eq]
  exact ⟨fun h child mem => h _ mem rfl, fun h entry mem same => h entry.2 (same ▸ mem)⟩

theorem Adds.of_node? {parent : NodeId} {parentName newName : String} {above : Option NodeId}
    {mode : ListMode} {children : List (String × NodeId)} {newKind : NodeKind}
    (found : t.node? parent = some ⟨parentName, above, mode, .container children⟩)
    (absent : children.lookup newName = none) (size : t'.size = t.size + 1)
    (generation : t'.generation = t.generation + 1)
    (node : ∀ id, t'.node? id =
      if id = t.size then some ⟨newName, some parent, .expanded, .empty newKind⟩
      else if id = parent then
        some ⟨parentName, above, mode, .container (children ++ [(newName, t.size)])⟩
      else t.node? id) :
    Adds t t' parent newName newKind := by
  have outside : t.node? t.size = none := node?_eq_none (Nat.le_refl _)
  have off : t.size ≠ parent := Nat.ne_of_gt (node?_lt found)
  have new : t'.node? t.size = some ⟨newName, some parent, .expanded, .empty newKind⟩ := by
    simp [node]
  have grown : t'.node? parent =
      some ⟨parentName, above, mode, .container (children ++ [(newName, t.size)])⟩ := by
    simp [node, off.symm]
  have other : ∀ id, id ≠ t.size → id ≠ parent → t'.node? id = t.node? id := by
    intro id h₁ h₂
    simp [node, h₁, h₂]
  -- Every question is asked at the new node, at its parent and at any other node.
  have cases_on : ∀ {P : NodeId → Prop}, P t.size → P parent →
      (∀ id, id ≠ t.size → id ≠ parent → P id) → ∀ id, P id := by
    intro P atNew atParent atOther id
    by_cases h₁ : id = t.size
    · exact h₁ ▸ atNew
    · by_cases h₂ : id = parent
      · exact h₂ ▸ atParent
      · exact atOther id h₁ h₂
  refine
    { parent_lt := node?_lt found
      parent_isLeaf := by simp [isLeaf_eq, found, Content.kind]
      fresh := by
        rw [registered_eq, found]
        exact lookup_eq_none_iff.mp absent
      size := size
      generation := generation
      parent? := cases_on ?_ ?_ ?_
      name := cases_on ?_ ?_ ?_
      kind := cases_on ?_ ?_ ?_
      registered := cases_on ?_ ?_ ?_
      mode := funext (cases_on ?_ ?_ ?_)
      links := ⟨funext (cases_on ?_ ?_ ?_), funext (cases_on ?_ ?_ ?_)⟩
      missing := funext (cases_on ?_ ?_ ?_) }
  · simp [Tree.parent?, new]
  · simp [Tree.parent?, grown, found, off.symm]
  · intro id h₁ h₂
    simp [Tree.parent?, other id h₁ h₂, h₁]
  · simp [Tree.name, new]
  · simp [Tree.name, grown, found, off.symm]
  · intro id h₁ h₂
    simp [Tree.name, other id h₁ h₂, h₁]
  · cases newKind <;> simp [Tree.kind, new, Content.kind, Content.empty]
  · simp [Tree.kind, grown, found, off.symm, Content.kind]
  · intro id h₁ h₂
    simp [Tree.kind, other id h₁ h₂, h₁]
  · cases newKind <;> simp [registered_eq, new, outside, off, Content.empty, Content.children]
  · simp [registered_eq, grown, found, Content.children]
  · intro id h₁ h₂
    simp [registered_eq, other id h₁ h₂, h₂]
  · simp [Tree.mode, new, outside]
  · simp [Tree.mode, grown, found]
  · intro id h₁ h₂
    simp [Tree.mode, other id h₁ h₂]
  · cases newKind <;> simp [uses_eq, new, outside, Content.empty, Content.successors]
  · simp [uses_eq, grown, found, Content.successors]
  · intro id h₁ h₂
    simp [uses_eq, other id h₁ h₂]
  · cases newKind <;> simp [usedBy_eq, new, outside, Content.empty, Content.predecessors]
  · simp [usedBy_eq, grown, found, Content.predecessors]
  · intro id h₁ h₂
    simp [usedBy_eq, other id h₁ h₂]
  · cases newKind <;> simp [missing_eq, new, outside, Content.empty, Content.missing]
  · simp [missing_eq, grown, found, Content.missing]
  · intro id h₁ h₂
    simp [missing_eq, other id h₁ h₂]

theorem Adds.lt_of_ne {parent id : NodeId} {newName : String} {newKind : NodeKind}
    (added : Adds t t' parent newName newKind) (present : id < t'.size) (old : id ≠ t.size) :
    id < t.size := by
  rw [added.size] at present
  exact Nat.lt_of_le_of_ne (Nat.le_of_lt_succ present) old

/-- Reuse of a child that is there, or a new one. -/
theorem place_cases {parent id : NodeId} {newName : String} {newKind : NodeKind}
    (h : t.place parent newName newKind = .ok (t', id)) :
    (t' = t ∧ t.child? parent newName = some id ∧ t.kind id = newKind) ∨
      (id = t.size ∧ Adds t t' parent newName newKind) := by
  unfold place at h
  split at h
  · next parentName above mode children found =>
    split at h
    · next looked =>
      split at h
      · next same =>
        simp only [Except.ok.injEq, Prod.mk.injEq] at h
        obtain ⟨rfl, rfl⟩ := h
        exact .inl ⟨rfl, by simp only [child?, registered, found, looked], same⟩
      · simp at h
    · next absent =>
      simp only [Except.ok.injEq, Prod.mk.injEq] at h
      obtain ⟨rfl, rfl⟩ := h
      refine .inr ⟨rfl, .of_node? found absent ?_ rfl ?_⟩
      · simp [size]
      · intro id
        have := node?_lt found
        simp only [node?, Array.getElem?_push, Array.set!_eq_setIfInBounds,
          Array.size_setIfInBounds, Array.getElem?_setIfInBounds]
        grind [size]
  · simp at h

/-! ## Changes inside nodes -/

/-- A change of a node that leaves its place in the tree as it is. -/
structure KeepsPlace (f : Node → Node) : Prop where
  name : ∀ node, (f node).name = node.name
  parent : ∀ node, (f node).parent = node.parent
  kind : ∀ node, (f node).content.kind = node.content.kind
  children : ∀ node, (f node).content.children = node.content.children

theorem KeepsPlace.id : KeepsPlace fun node => node :=
  ⟨fun _ => rfl, fun _ => rfl, fun _ => rfl, fun _ => rfl⟩

theorem KeepsPlace.comp {f g : Node → Node} (outer : KeepsPlace f) (inner : KeepsPlace g) :
    KeepsPlace fun node => f (g node) where
  name node := by rw [outer.name, inner.name]
  parent node := by rw [outer.parent, inner.parent]
  kind node := by rw [outer.kind, inner.kind]
  children node := by rw [outer.children, inner.children]

theorem KeepsPlace.ite {f : Node → Node} (p : Prop) [Decidable p] (keeps : KeepsPlace f) :
    KeepsPlace fun node => if p then f node else node := by
  split
  · exact keeps
  · exact .id

theorem keepsPlace_addUse (target : NodeId) : KeepsPlace (addUse target) := by
  constructor <;> rintro ⟨_, _, _, _ | _⟩ <;> rfl

theorem keepsPlace_addUser (source : NodeId) : KeepsPlace (addUser source) := by
  constructor <;> rintro ⟨_, _, _, _ | _⟩ <;> rfl

theorem keepsPlace_addMissing (name : String) : KeepsPlace (addMissing name) := by
  constructor <;> rintro ⟨_, _, _, _ | _⟩ <;> rfl

theorem keepsPlace_mode (mode : ListMode) : KeepsPlace fun node => { node with mode } :=
  ⟨fun _ => rfl, fun _ => rfl, fun _ => rfl, fun _ => rfl⟩

theorem size_eq_of_map {f : NodeId → Node → Node}
    (node : ∀ id, t'.node? id = (t.node? id).map (f id)) : t'.size = t.size := by
  refine Nat.le_antisymm (Nat.le_of_not_lt fun h => ?_) (Nat.le_of_not_lt fun h => ?_)
  · have := node?_isSome_of_lt h
    simp [node, node?_eq_none (Nat.le_refl t.size)] at this
  · have := node?_isSome_of_lt h
    have none := node?_eq_none (Nat.le_refl t'.size)
    rw [node, Option.map_eq_none_iff] at none
    simp [none] at this

theorem SameShape.of_map {f : NodeId → Node → Node}
    (node : ∀ id, t'.node? id = (t.node? id).map (f id)) (keeps : ∀ id, KeepsPlace (f id)) :
    SameShape t t' where
  size := size_eq_of_map node
  parent? := by
    funext id
    cases found : t.node? id <;> simp [Tree.parent?, node, found, (keeps id).parent]
  name := by
    funext id
    cases found : t.node? id <;> simp [Tree.name, node, found, (keeps id).name]
  isLeaf := by
    funext id
    cases found : t.node? id <;> simp [isLeaf_eq, node, found, (keeps id).kind]
  registered := by
    funext id
    cases found : t.node? id <;> simp [registered_eq, node, found, (keeps id).children]

theorem SameLinks.of_map {f : NodeId → Node → Node}
    (node : ∀ id, t'.node? id = (t.node? id).map (f id))
    (uses : ∀ id old, (f id old).content.successors = old.content.successors)
    (usedBy : ∀ id old, (f id old).content.predecessors = old.content.predecessors) :
    SameLinks t t' where
  uses := by
    funext id
    cases found : t.node? id <;> simp [uses_eq, node, found, uses]
  usedBy := by
    funext id
    cases found : t.node? id <;> simp [usedBy_eq, node, found, usedBy]

/-! ## A new link -/

/-- A tree and the one with one more link, recorded at both of its ends. -/
structure Links (t t' : Tree) (source target : NodeId) : Prop where
  source_isLeaf : t.isLeaf source = true
  target_isLeaf : t.isLeaf target = true
  fresh : target ∉ t.uses source
  generation : t'.generation = t.generation + 1
  shape : SameShape t t'
  mode : t'.mode = t.mode
  missing : t'.missing = t.missing
  uses : ∀ id, t'.uses id = if id = source then t.uses source ++ [target] else t.uses id
  usedBy : ∀ id, t'.usedBy id = if id = target then t.usedBy target ++ [source] else t.usedBy id

theorem node?_connect {source target : NodeId} (fresh : target ∉ t.uses source) (id : NodeId) :
    (t.connect source target).node? id = (t.node? id).map fun node =>
      (fun node => if id = target then addUser source node else node)
        (if id = source then addUse target node else node) := by
  simp only [connect, fresh, if_false, node?, Array.getElem?_modify, eq_comm (a := id)]
  by_cases h₁ : source = id <;> by_cases h₂ : target = id <;>
    simp [h₁, h₂, Function.comp_def]

section Ends

variable (source target : NodeId) (node : Node)

@[simp] theorem mode_addUse : (addUse target node).mode = node.mode := by
  obtain ⟨_, _, _, _ | _⟩ := node <;> rfl

@[simp] theorem mode_addUser : (addUser source node).mode = node.mode := by
  obtain ⟨_, _, _, _ | _⟩ := node <;> rfl

@[simp] theorem missing_addUse : (addUse target node).content.missing = node.content.missing := by
  obtain ⟨_, _, _, _ | _⟩ := node <;> rfl

@[simp] theorem missing_addUser : (addUser source node).content.missing = node.content.missing := by
  obtain ⟨_, _, _, _ | _⟩ := node <;> rfl

@[simp] theorem successors_addUser :
    (addUser source node).content.successors = node.content.successors := by
  obtain ⟨_, _, _, _ | _⟩ := node <;> rfl

@[simp] theorem predecessors_addUse :
    (addUse target node).content.predecessors = node.content.predecessors := by
  obtain ⟨_, _, _, _ | _⟩ := node <;> rfl

variable {node} (leaf : node.content.kind = .leaf)
include leaf

theorem successors_addUse :
    (addUse target node).content.successors = node.content.successors ++ [target] := by
  obtain ⟨_, _, _, _ | _⟩ := node
  · simp [Content.kind] at leaf
  · rfl

theorem predecessors_addUser :
    (addUser source node).content.predecessors = node.content.predecessors ++ [source] := by
  obtain ⟨_, _, _, _ | _⟩ := node
  · simp [Content.kind] at leaf
  · rfl

end Ends

theorem exists_leaf_of_isLeaf {id : NodeId} (h : t.isLeaf id = true) :
    ∃ node, t.node? id = some node ∧ node.content.kind = .leaf := by
  rw [isLeaf_eq] at h
  cases found : t.node? id with
  | none => simp [found] at h
  | some node => exact ⟨node, rfl, by simpa [found] using h⟩

/-- Nothing happens to a link that is there; otherwise it is recorded at both ends. -/
theorem connect_cases {source target : NodeId} (source_isLeaf : t.isLeaf source = true)
    (target_isLeaf : t.isLeaf target = true) :
    (target ∈ t.uses source ∧ t.connect source target = t) ∨
      Links t (t.connect source target) source target := by
  by_cases known : target ∈ t.uses source
  · exact .inl ⟨known, by simp [connect, known]⟩
  have node := node?_connect known
  refine .inr
    { source_isLeaf, target_isLeaf
      fresh := known
      generation := by simp [connect, known]
      shape := .of_map node fun id =>
        .comp (.ite _ (keepsPlace_addUser source)) (.ite _ (keepsPlace_addUse target))
      mode := ?_, missing := ?_, uses := ?_, usedBy := ?_ }
  · funext id
    cases found : t.node? id with
    | none => simp [Tree.mode, node, found]
    | some old =>
      simp only [Tree.mode, node, found, Option.map_some]
      split <;> split <;> simp
  · funext id
    cases found : t.node? id with
    | none => simp [missing_eq, node, found]
    | some old =>
      simp only [missing_eq, node, found, Option.map_some, Option.elim_some]
      split <;> split <;> simp
  · intro id
    by_cases h : id = source
    · obtain ⟨old, found, leaf⟩ := exists_leaf_of_isLeaf source_isLeaf
      simp only [h, uses_eq, node, found, Option.map_some, Option.elim_some, if_true]
      split <;> simp [successors_addUse target leaf]
    · cases found : t.node? id with
      | none => simp [uses_eq, node, found, h]
      | some old =>
        simp only [uses_eq, node, found, Option.map_some, Option.elim_some, h, if_false]
        split <;> simp
  · intro id
    by_cases h : id = target
    · obtain ⟨old, found, leaf⟩ := exists_leaf_of_isLeaf target_isLeaf
      simp only [h, usedBy_eq, node, found, Option.map_some, Option.elim_some, if_true]
      split
      · rw [predecessors_addUser source (by rw [(keepsPlace_addUse target).kind, leaf]),
          predecessors_addUse]
      · exact predecessors_addUser source leaf
    · cases found : t.node? id with
      | none => simp [usedBy_eq, node, found, h]
      | some old =>
        simp only [usedBy_eq, node, found, Option.map_some, Option.elim_some, h, if_false]
        split <;> simp

theorem link_eq_ok_iff {source target : NodeId} :
    t.link source target = .ok t' ↔
      t.isLeaf source = true ∧ t.isLeaf target = true ∧ t' = t.connect source target := by
  unfold link
  cases hs : t.isLeaf source <;> cases ht : t.isLeaf target <;>
    simp [List.find?, hs, ht, eq_comm]

/-! ## A missing name -/

theorem node?_noteMissing (leaf : NodeId) (name : String) (id : NodeId) :
    (t.noteMissing leaf name).node? id = (t.node? id).map fun node =>
      if id = leaf then addMissing name node else node := by
  simp only [noteMissing, node?, Array.getElem?_modify, eq_comm (a := id)]
  split <;> simp

theorem sameShape_noteMissing (leaf : NodeId) (name : String) :
    SameShape t (t.noteMissing leaf name) :=
  .of_map (node?_noteMissing leaf name) fun _ => .ite _ (keepsPlace_addMissing name)

theorem sameLinks_noteMissing (leaf : NodeId) (name : String) :
    SameLinks t (t.noteMissing leaf name) := by
  refine .of_map (node?_noteMissing leaf name) ?_ ?_ <;> rintro id ⟨_, _, _, _ | _⟩ <;>
    split <;> rfl

theorem missing_noteMissing {leaf : NodeId} (isLeaf : t.isLeaf leaf = true) (name : String)
    (id : NodeId) :
    (t.noteMissing leaf name).missing id =
      if id = leaf then Text.NameSet.insert name (t.missing leaf) else t.missing id := by
  rw [missing_eq, node?_noteMissing]
  by_cases h : id = leaf
  · obtain ⟨⟨_, _, _, content⟩, found, kind⟩ := exists_leaf_of_isLeaf isLeaf
    cases content with
    | container => cases kind
    | leaf => simp [h, missing_eq, found, addMissing, Content.missing]
  · simp [h, missing_eq]

/-! ## Another list mode -/

theorem node?_setMode (changed : NodeId) (mode : ListMode) (id : NodeId) :
    (t.setMode changed mode).1.node? id = (t.node? id).map fun node =>
      if id = changed then { node with mode } else node := by
  unfold setMode
  split
  · next node found =>
    split
    · next same =>
      by_cases h : id = changed
      · simp [h, found, ← same]
      · simp [h]
    · simp only [node?, Array.set!_eq_setIfInBounds, Array.getElem?_setIfInBounds]
      by_cases h : changed = id
      · subst h
        have := node?_lt found
        rw [node?] at found
        simp_all [size]
      · simp [h, Ne.symm h]
  · next found =>
    by_cases h : id = changed
    · simp [h, found]
    · simp [h]

theorem sameShape_setMode (changed : NodeId) (mode : ListMode) :
    SameShape t (t.setMode changed mode).1 :=
  .of_map (node?_setMode changed mode) fun _ => .ite _ (keepsPlace_mode mode)

theorem sameLinks_setMode (changed : NodeId) (mode : ListMode) :
    SameLinks t (t.setMode changed mode).1 := by
  refine .of_map (node?_setMode changed mode) ?_ ?_ <;> intro id node <;> split <;> rfl

theorem setMode_of_eq {id : NodeId} {mode : ListMode} (known : t.mode id = mode) :
    t.setMode id mode = (t, false) := by
  unfold setMode
  split
  next node found =>
    rw [Tree.mode, found] at known
    rw [if_pos known]
  next => rfl

theorem setMode_of_ne {id : NodeId} {mode : ListMode} (present : id < t.size)
    (different : t.mode id ≠ mode) :
    (t.setMode id mode).2 = true ∧ (t.setMode id mode).1.generation = t.generation + 1 := by
  obtain ⟨node, found⟩ := Option.isSome_iff_exists.mp (node?_isSome_of_lt present)
  rw [Tree.mode, found] at different
  simp [setMode, found, different]

theorem mode_setMode_of_ne {id changed : NodeId} (mode : ListMode) (other : id ≠ changed) :
    (t.setMode changed mode).1.mode id = t.mode id := by
  simp [Tree.mode, node?_setMode, other]

end Tree

end ClassCoupling
