import ClassCoupling.Proofs.Tree.WellFormed

/-!
# Reachable trees

A tree is reachable if some sequence of changes leads to it from the empty tree. A change that fails
counts as well: a creation may leave containers behind, all others leave the tree as it was.
-/

namespace ClassCoupling.Tree

variable {t t' : Tree}

/-! ## Creation -/

theorem ne_nil_of_mem_route {path segment : List Char} (h : segment ∈ (route path).1) :
    segment ≠ [] := by
  fun_induction route path with
  | case1 => simp at h
  | case2 => simp at h
  | case3 c cs _ segment' rest _ more last routed ih =>
    rw [routed] at ih
    rcases List.mem_cons.mp h with rfl | later
    · simp
    · exact ih later
  | case4 => simp at h

/-- What every added node keeps, a creation keeps, whether it succeeds or not. -/
theorem createAlong_induction {P : Tree → Prop} (kind : NodeKind)
    (step : ∀ {t t' parent name kind}, P t → name ≠ "" → Adds t t' parent name kind → P t')
    (parent : NodeId) (via : List String) (last : String) (named : ∀ segment ∈ via, segment ≠ "")
    (start : P t) : P (createAlong kind t parent via last).1 := by
  have placed : ∀ {t t' parent id name kind}, P t → name ≠ "" →
      t.place parent name kind = .ok (t', id) → P t' := by
    intro t t' parent id name kind holds name_ne h
    rcases place_cases h with ⟨rfl, -, -⟩ | ⟨-, added⟩
    · exact holds
    · exact step holds name_ne added
  induction via generalizing t parent with
  | nil =>
    unfold createAlong
    split
    · exact start
    · next name_ne =>
      split
      · next h => exact placed start name_ne h
      · exact start
  | cons segment via ih =>
    unfold createAlong
    split
    · next h =>
      exact ih _ (fun s hs => named s (List.mem_cons_of_mem _ hs))
        (placed start (named segment List.mem_cons_self) h)
    · exact start

theorem create_induction {P : Tree → Prop} (kind : NodeKind)
    (step : ∀ {t t' parent name kind}, P t → name ≠ "" → Adds t t' parent name kind → P t')
    (parent : NodeId) (path : String) (start : P t) : P (t.create kind parent path).1 := by
  refine createAlong_induction kind step parent _ _ ?_ start
  intro segment h
  obtain ⟨cs, mem, rfl⟩ := List.mem_map.mp h
  simpa using ne_nil_of_mem_route mem

theorem Adds.isLeaf_of_isLeaf {parent id : NodeId} {newName : String} {newKind : NodeKind}
    (added : Adds t t' parent newName newKind) (leaf : t.isLeaf id = true) :
    t'.isLeaf id = true := by
  have old : id ≠ t.size := Nat.ne_of_lt (lt_of_isLeaf leaf)
  rw [isLeaf, added.kind, if_neg old]
  exact leaf

theorem isLeaf_create {id : NodeId} (kind : NodeKind) (parent : NodeId) (path : String)
    (leaf : t.isLeaf id = true) : (t.create kind parent path).1.isLeaf id = true :=
  create_induction (P := fun t => t.isLeaf id = true) kind
    (fun leaf _ added => added.isLeaf_of_isLeaf leaf) parent path leaf

theorem kind_of_createAlong_eq_ok {kind : NodeKind} {parent id : NodeId} {via : List String}
    {last : String} (created : createAlong kind t parent via last = (t', .ok id)) :
    t'.kind id = kind := by
  induction via generalizing t parent with
  | nil =>
    unfold createAlong at created
    split at created
    · cases created
    · split at created
      next placed =>
        cases created
        rcases place_cases placed with ⟨rfl, -, same⟩ | ⟨rfl, added⟩
        · exact same
        · rw [added.kind, if_pos rfl]
      next => cases created
  | cons segment via ih =>
    unfold createAlong at created
    split at created
    · exact ih created
    · cases created

theorem isLeaf_of_createLeaf_eq_ok {parent id : NodeId} {path : String}
    (created : t.createLeaf parent path = (t', .ok id)) : t'.isLeaf id = true := by
  unfold createLeaf create at created
  simp only [Prod.mk.injEq] at created
  obtain ⟨rfl, ok⟩ := created
  cases result : (createAlong .leaf t parent ((route path.toList).1.map String.ofList)
      (String.ofList (route path.toList).2)) with
  | mk grown outcome =>
    rw [result] at ok
    cases outcome with
    | error obstacle => cases ok
    | ok found =>
      cases ok
      simp [isLeaf, kind_of_createAlong_eq_ok result]

/-! ## Runs of changes -/

/-- One change to a tree, as it is asked for. -/
inductive Change where
  | createContainer (parent : NodeId) (path : String)
  | createLeaf (parent : NodeId) (path : String)
  | link (source target : NodeId)
  | recordMissing (leaf : NodeId) (name : String)
  | setMode (id : NodeId) (mode : ListMode)
  deriving DecidableEq, Repr

/-- The tree after a change, be it successful or not. -/
def perform (t : Tree) : Change → Tree
  | .createContainer parent path => (t.createContainer parent path).1
  | .createLeaf parent path => (t.createLeaf parent path).1
  | .link source target => (t.link source target).toOption.getD t
  | .recordMissing leaf name => (t.recordMissing leaf name).toOption.getD t
  | .setMode id mode => (t.setMode id mode).1

inductive Reachable : Tree → Prop where
  | empty : Reachable .empty
  | step {t : Tree} (change : Change) : Reachable t → Reachable (t.perform change)

theorem node?_empty (id : NodeId) :
    empty.node? id = if id = root then some ⟨"", none, .expanded, .container []⟩ else none := by
  cases id with
  | zero => rfl
  | succ id => simp [node?, empty, root]

theorem wellFormed_empty : empty.WellFormed := by
  have no_parent : ∀ id, empty.parent? id = none := by
    intro id
    rw [parent?, node?_empty]
    split <;> rfl
  have no_children : ∀ id, empty.registered id = [] := by
    intro id
    rw [registered_eq, node?_empty]
    split <;> rfl
  have no_uses : ∀ id, empty.uses id = [] := by
    intro id
    rw [uses_eq, node?_empty]
    split <;> rfl
  have no_users : ∀ id, empty.usedBy id = [] := by
    intro id
    rw [usedBy_eq, node?_empty]
    split <;> rfl
  have only_root : ∀ {id}, id < empty.size → id = root := fun h => Nat.lt_one_iff.mp h
  exact
    { size_pos := Nat.zero_lt_one
      root_parent := no_parent root
      root_isLeaf := rfl
      parent_lt := by simp [no_parent]
      has_parent := fun present not_root => absurd (only_root present) not_root
      name_ne := fun present not_root => absurd (only_root present) not_root
      mem_registered := by simp [no_children, no_parent]
      names_nodup := by simp [no_children]
      sorted := by simp [no_children]
      uses_nodup := by simp [no_uses]
      usedBy_nodup := by simp [no_users]
      mem_usedBy := by simp [no_uses, no_users] }

theorem perform_link (t : Tree) (source target : NodeId) :
    t.perform (.link source target) = t ∨
      Links t (t.perform (.link source target)) source target := by
  cases linked : t.link source target with
  | error => exact .inl (by simp [perform, linked, Except.toOption])
  | ok t' =>
    obtain ⟨hs, ht, rfl⟩ := link_eq_ok_iff.mp linked
    have performed : t.perform (.link source target) = t.connect source target := by
      simp [perform, linked, Except.toOption]
    rw [performed]
    exact (connect_cases hs ht).imp_left And.right

theorem perform_recordMissing_of_isLeaf {leaf : NodeId} (isLeaf : t.isLeaf leaf = true)
    (name : String) : t.perform (.recordMissing leaf name) = t.noteMissing leaf name := by
  simp [perform, recordMissing, isLeaf, Except.toOption]

theorem perform_recordMissing_of_container {leaf : NodeId} (container : t.isLeaf leaf = false)
    (name : String) : t.perform (.recordMissing leaf name) = t := by
  simp [perform, recordMissing, container, Except.toOption]

theorem perform_recordMissing (t : Tree) (leaf : NodeId) (name : String) :
    t.perform (.recordMissing leaf name) = t ∨
      t.perform (.recordMissing leaf name) = t.noteMissing leaf name := by
  cases isLeaf : t.isLeaf leaf with
  | false => exact .inl (perform_recordMissing_of_container isLeaf name)
  | true => exact .inr (perform_recordMissing_of_isLeaf isLeaf name)

theorem WellFormed.perform (wf : t.WellFormed) (change : Change) :
    (t.perform change).WellFormed := by
  cases change with
  | createContainer parent path =>
    exact create_induction _ (fun wf name_ne added => wf.adds added name_ne) parent path wf
  | createLeaf parent path =>
    exact create_induction _ (fun wf name_ne added => wf.adds added name_ne) parent path wf
  | link source target =>
    rcases t.perform_link source target with same | added
    · rw [same]
      exact wf
    · exact wf.links added
  | recordMissing leaf name =>
    rcases t.perform_recordMissing leaf name with same | noted
    · rw [same]
      exact wf
    · rw [noted]
      exact wf.of_same (sameShape_noteMissing leaf name) (sameLinks_noteMissing leaf name)
  | setMode id mode => exact wf.of_same (sameShape_setMode id mode) (sameLinks_setMode id mode)

theorem Reachable.run (reached : t.Reachable) (changes : List Change) :
    (changes.foldl Tree.perform t).Reachable := by
  induction changes generalizing t with
  | nil => exact reached
  | cons change changes ih => exact ih (.step change reached)

theorem Reachable.wellFormed (reached : t.Reachable) : t.WellFormed := by
  induction reached with
  | empty => exact wellFormed_empty
  | step change _ ih => exact ih.perform change

end ClassCoupling.Tree
