import ClassCoupling.Proofs.Text.Cut
import ClassCoupling.Proofs.Tree.Containment

/-!
# Paths in the tree

A path without empty segments means one thing to everybody: creation goes down along the segments
that a search goes down along, and the full name of the node they end at is the path again. What a
tree has grown by hides nothing that was found before.
-/

namespace ClassCoupling.Tree

open Text

variable {t t' t'' : Tree} {id p x : NodeId}

/-! ## Segments -/

theorem splitOn_eq_route {path : List Char}
    (segmented : ∀ segment ∈ path.splitOn '.', segment ≠ []) :
    path.splitOn '.' = (route path).1 ++ [(route path).2] := by
  fun_induction route path with
  | case1 => rfl
  | case2 cs =>
    have cut : cutFirst '.' ('.' :: cs) = some ([], cs) := by simp [cutFirst]
    rw [splitOn_of_cutFirst_eq_some cut] at segmented
    exact absurd rfl (segmented [] List.mem_cons_self)
  | case3 c cs differs segment rest cut more last routed ih =>
    have first : cutFirst '.' (c :: cs) = some (c :: segment, rest) := by
      simp [cutFirst, differs, cut]
    rw [splitOn_of_cutFirst_eq_some first] at segmented ⊢
    rw [routed] at ih
    rw [ih fun segment part => segmented segment (List.mem_cons_of_mem _ part)]
    rfl
  | case4 c cs differs cut =>
    have none : cutFirst '.' (c :: cs) = none := by simp [cutFirst, differs, cut]
    rw [splitOn_of_cutFirst_eq_none none]
    rfl

theorem split_eq_route {path : String} (segmented : Segmented path) :
    split '.' path =
      (route path.toList).1.map String.ofList ++ [String.ofList (route path.toList).2] := by
  have parts : ∀ segment ∈ path.toList.splitOn '.', segment ≠ [] := by
    intro segment part
    have := segmented _ (List.mem_map_of_mem part)
    simpa using this
  rw [split, splitOn_eq_route parts, List.map_append, List.map_singleton]

/-- The node that a list of names leads down to. -/
def descend (t : Tree) (start : NodeId) (segments : List String) : Option NodeId :=
  segments.foldlM (fun current segment => t.child? current segment) start

@[simp] theorem descend_nil : t.descend p [] = some p := rfl

theorem descend_cons (segment : String) (segments : List String) :
    t.descend p (segment :: segments) =
      (t.child? p segment).bind fun child => t.descend child segments := List.foldlM_cons

theorem descend_append (above below : List String) :
    t.descend p (above ++ below) =
      (t.descend p above).bind fun middle => t.descend middle below := List.foldlM_append

theorem descend_singleton (segment : String) : t.descend p [segment] = t.child? p segment := by
  simp [descend_cons]

theorem findByName?_eq {path : String} (named : path ≠ "") :
    t.findByName? path = t.descend root (split '.' path) := by
  rw [findByName?, find?, if_neg named]
  rfl

theorem SameShape.descend (same : SameShape t t') : t'.descend = t.descend := by
  funext start segments
  simp only [Tree.descend, child?, same.registered]

theorem SameShape.findByName? (same : SameShape t t') : t'.findByName? = t.findByName? := by
  funext path
  simp only [Tree.findByName?, find?, child?, same.registered]

/-! ## Growing -/

/-- A tree and one that has grown from it by new nodes alone. -/
structure Extends (t t' : Tree) : Prop where
  size_le : t.size ≤ t'.size
  parent? : ∀ id < t.size, t'.parent? id = t.parent? id
  name : ∀ id < t.size, t'.name id = t.name id
  kind : ∀ id < t.size, t'.kind id = t.kind id
  child? : ∀ {p name id}, t.child? p name = some id → t'.child? p name = some id
  uses : t'.uses = t.uses
  missing : t'.missing = t.missing

theorem Extends.refl (t : Tree) : Extends t t :=
  ⟨Nat.le_refl _, fun _ _ => rfl, fun _ _ => rfl, fun _ _ => rfl, fun found => found, rfl, rfl⟩

theorem Extends.trans (first : Extends t t') (second : Extends t' t'') : Extends t t'' where
  size_le := Nat.le_trans first.size_le second.size_le
  parent? id old := by
    rw [second.parent? id (Nat.lt_of_lt_of_le old first.size_le), first.parent? id old]
  name id old := by
    rw [second.name id (Nat.lt_of_lt_of_le old first.size_le), first.name id old]
  kind id old := by
    rw [second.kind id (Nat.lt_of_lt_of_le old first.size_le), first.kind id old]
  child? found := second.child? (first.child? found)
  uses := second.uses.trans first.uses
  missing := second.missing.trans first.missing

theorem Adds.extends {parent : NodeId} {newName : String} {newKind : NodeKind}
    (added : Adds t t' parent newName newKind) : Extends t t' where
  size_le := by
    rw [added.size]
    exact Nat.le_succ _
  parent? id old := by rw [added.parent?, if_neg (Nat.ne_of_lt old)]
  name id old := by rw [added.name, if_neg (Nat.ne_of_lt old)]
  kind id old := by rw [added.kind, if_neg (Nat.ne_of_lt old)]
  child? := by
    intro p name id found
    rw [Tree.child?] at found ⊢
    rw [added.registered]
    split
    next here =>
      rw [here] at found
      rw [List.lookup_append, found]
      rfl
    next => exact found
  uses := added.links.uses
  missing := added.missing

theorem Extends.isLeaf (grown : Extends t t') (leaf : t.isLeaf id = true) :
    t'.isLeaf id = true := by
  rw [Tree.isLeaf, grown.kind id (lt_of_isLeaf leaf)]
  exact leaf

theorem Extends.descend (grown : Extends t t') {segments : List String}
    (found : t.descend p segments = some id) : t'.descend p segments = some id := by
  induction segments generalizing p with
  | nil => exact found
  | cons segment segments ih =>
    rw [descend_cons, Option.bind_eq_some_iff] at found ⊢
    obtain ⟨child, first, rest⟩ := found
    exact ⟨child, grown.child? first, ih rest⟩

theorem Extends.findByName? (grown : Extends t t') {path : String}
    (found : t.findByName? path = some id) : t'.findByName? path = some id := by
  by_cases empty : path = ""
  · simp [Tree.findByName?, find?, empty] at found
  · rw [findByName?_eq empty] at found ⊢
    exact grown.descend found

/-- The way to a node that was there before was there before. -/
theorem Extends.descend_of_lt (grown : Extends t t') (tree : t.Contained) (tree' : t'.Contained)
    {segments : List String} (found : t'.descend p segments = some id) (old : id < t.size) :
    t.descend p segments = some id := by
  induction segments using List.reverseRecOn generalizing id with
  | nil => exact found
  | append_singleton segments last ih =>
    rw [descend_append, Option.bind_eq_some_iff] at found ⊢
    obtain ⟨above, way, child⟩ := found
    rw [descend_singleton] at child
    obtain ⟨parent, named⟩ := tree'.child?_eq_some_iff.mp child
    rw [grown.parent? id old] at parent
    rw [grown.name id old] at named
    refine ⟨above, ih way (Nat.lt_trans (tree.parent_lt parent) old), ?_⟩
    rw [descend_singleton]
    exact tree.child?_eq_some_iff.mpr ⟨parent, named⟩

theorem Contained.lt_of_descend (tree : t.Contained) (present : p < t.size) {segments : List String}
    (found : t.descend p segments = some id) : id < t.size := by
  induction segments generalizing p with
  | nil =>
    cases found
    exact present
  | cons segment segments ih =>
    rw [descend_cons, Option.bind_eq_some_iff] at found
    obtain ⟨child, first, rest⟩ := found
    exact ih (lt_of_parent?_eq_some (tree.child?_eq_some_iff.mp first).1) rest

/-- One way leads down to a node. -/
theorem Contained.descend_injective (tree : t.Contained) {one other : List String}
    (found : t.descend root one = some id) (again : t.descend root other = some id) :
    one = other := by
  have last : ∀ {segments : List String} {segment : String} {id : NodeId},
      t.descend root (segments ++ [segment]) = some id →
      ∃ above, t.descend root segments = some above ∧ t.parent? id = some above ∧
        t.name id = segment := by
    intro segments segment id found
    rw [descend_append, Option.bind_eq_some_iff] at found
    obtain ⟨above, way, child⟩ := found
    rw [descend_singleton] at child
    exact ⟨above, way, tree.child?_eq_some_iff.mp child⟩
  induction one using List.reverseRecOn generalizing id other with
  | nil =>
    cases found
    rcases List.eq_nil_or_concat other with rfl | ⟨segments, segment, rfl⟩
    · rfl
    · rw [List.concat_eq_append] at again
      obtain ⟨above, -, parent, -⟩ := last again
      rw [tree.root_parent] at parent
      cases parent
  | append_singleton segments segment ih =>
    obtain ⟨above, way, parent, named⟩ := last found
    rcases List.eq_nil_or_concat other with rfl | ⟨segments', segment', rfl⟩
    · cases again
      rw [tree.root_parent] at parent
      cases parent
    · rw [List.concat_eq_append] at again ⊢
      obtain ⟨above', way', parent', named'⟩ := last again
      cases Option.some.inj (parent.symm.trans parent')
      rw [ih way way', ← named, ← named']

/-! ## Creating leaves -/

section Place

variable {name : String} {kind : NodeKind}

theorem child?_of_place_eq_ok (placed : t.place p name kind = .ok (t', id)) :
    t'.child? p name = some id := by
  rcases place_cases placed with ⟨rfl, found, -⟩ | ⟨rfl, added⟩
  · exact found
  · rw [Tree.child?, added.registered, if_pos rfl, List.lookup_append,
      lookup_eq_none_iff.mpr added.fresh]
    simp

theorem extends_of_place_eq_ok (placed : t.place p name kind = .ok (t', id)) : Extends t t' := by
  rcases place_cases placed with ⟨rfl, -, -⟩ | ⟨-, added⟩
  · exact .refl _
  · exact added.extends

theorem Contained.place (tree : t.Contained) (named : name ≠ "")
    (placed : t.place p name kind = .ok (t', id)) : t'.Contained ∧ id < t'.size := by
  have child := child?_of_place_eq_ok placed
  rcases place_cases placed with ⟨rfl, -, -⟩ | ⟨-, added⟩
  · exact ⟨tree, lt_of_parent?_eq_some (tree.child?_eq_some_iff.mp child).1⟩
  · have tree' := tree.adds added named
    exact ⟨tree', lt_of_parent?_eq_some (tree'.child?_eq_some_iff.mp child).1⟩

theorem isLeaf_of_place_eq_ok (placed : t.place p name kind = .ok (t', id))
    (leaf : t'.isLeaf x = true) : t.isLeaf x = true ∨ (kind = .leaf ∧ x = id) := by
  rcases place_cases placed with ⟨rfl, -, -⟩ | ⟨rfl, added⟩
  · exact .inl leaf
  · rw [Tree.isLeaf, added.kind] at leaf
    split at leaf
    next new => exact .inr ⟨of_decide_eq_true leaf, new⟩
    next => exact .inl leaf

/-- Nothing can be placed in a leaf, nor under a name that a node of the other kind has. -/
theorem isLeaf_or_child?_of_place_eq_error {obstacle : Obstacle} (present : p < t.size)
    (failed : t.place p name kind = .error obstacle) :
    t.isLeaf p = true ∨ ∃ child, t.child? p name = some child ∧ t.kind child ≠ kind := by
  unfold Tree.place at failed
  split at failed
  next parentName above mode children found =>
    split at failed
    next child looked =>
      split at failed
      next => cases failed
      next other => exact .inr ⟨child, by simp only [Tree.child?, registered, found, looked], other⟩
    next => cases failed
  next no_container =>
    obtain ⟨⟨_, _, _, content⟩, found⟩ := Option.isSome_iff_exists.mp (node?_isSome_of_lt present)
    cases content with
    | container children => exact absurd found (no_container _ _ _ _)
    | leaf => exact .inl (by simp [isLeaf_eq, found, Content.kind])

/-- A container without children. -/
structure Vacant (t : Tree) (id : NodeId) : Prop where
  lt_size : id < t.size
  isLeaf : t.isLeaf id = false
  registered : t.registered id = []

theorem Adds.vacant (added : Adds t t' p name .container) : t'.Vacant t.size where
  lt_size := by
    rw [added.size]
    exact Nat.lt_succ_self _
  isLeaf := by
    rw [Tree.isLeaf, added.kind, if_pos rfl]
    rfl
  registered := by
    rw [added.registered, if_neg (Nat.ne_of_gt added.parent_lt), registered_eq,
      node?_eq_none (Nat.le_refl _)]
    rfl

theorem Vacant.place (vacant : t.Vacant p) (name : String) (kind : NodeKind) :
    ∃ t', t.place p name kind = .ok (t', t.size) ∧ Adds t t' p name kind := by
  have free : t.child? p name = none := by rw [Tree.child?, vacant.registered, List.lookup_nil]
  cases result : t.place p name kind with
  | error obstacle =>
    rcases isLeaf_or_child?_of_place_eq_error vacant.lt_size result with inside | ⟨_, found, -⟩
    · rw [vacant.isLeaf] at inside
      cases inside
    · rw [free] at found
      cases found
  | ok placed =>
    obtain ⟨t', id⟩ := placed
    rcases place_cases result with ⟨-, found, -⟩ | ⟨rfl, added⟩
    · rw [free] at found
      cases found
    · exact ⟨t', rfl, added⟩

end Place

section Along

variable {kind : NodeKind} {via : List String} {last : String}

theorem extends_createAlong (kind : NodeKind) (t : Tree) (p : NodeId) (via : List String)
    (last : String) : Extends t (createAlong kind t p via last).1 := by
  induction via generalizing t p with
  | nil =>
    unfold createAlong
    split
    next => exact .refl t
    next =>
      split
      next placed => exact extends_of_place_eq_ok placed
      next => exact .refl t
  | cons segment via ih =>
    unfold createAlong
    split
    next placed => exact (extends_of_place_eq_ok placed).trans (ih _ _)
    next => exact .refl t

/-- Creation leads down along the names it was given. -/
theorem descend_of_createAlong_eq_ok (created : createAlong kind t p via last = (t', .ok id)) :
    t'.descend p (via ++ [last]) = some id := by
  induction via generalizing t p with
  | nil =>
    unfold createAlong at created
    split at created
    next => cases created
    next =>
      split at created
      next placed =>
        cases created
        rw [List.nil_append, descend_singleton]
        exact child?_of_place_eq_ok placed
      next => cases created
  | cons segment via ih =>
    unfold createAlong at created
    split at created
    next between next_id placed =>
      have grown := extends_createAlong kind between next_id via last
      rw [created] at grown
      rw [List.cons_append, descend_cons, grown.child? (child?_of_place_eq_ok placed)]
      exact ih created
    next => cases created

/-- Every new leaf is the one asked for: what lies on the way to it are containers. -/
theorem isLeaf_createAlong (leaf : (createAlong .leaf t p via last).1.isLeaf x = true) :
    t.isLeaf x = true ∨ (createAlong .leaf t p via last).2 = .ok x := by
  induction via generalizing t p with
  | nil =>
    unfold createAlong at leaf ⊢
    split at leaf
    next empty =>
      rw [if_pos empty]
      exact .inl leaf
    next named =>
      rw [if_neg named]
      split at leaf
      next placed =>
        rcases isLeaf_of_place_eq_ok placed leaf with old | ⟨-, new⟩
        · exact .inl old
        · exact .inr (congrArg Except.ok new.symm)
      next => exact .inl leaf
  | cons segment via ih =>
    unfold createAlong at leaf ⊢
    split at leaf
    next placed =>
      rcases ih leaf with old | new
      · rcases isLeaf_of_place_eq_ok placed old with older | ⟨kind, -⟩
        · exact .inl older
        · cases kind
      · exact .inr new
    next => exact .inl leaf

/-- In a container without children nothing stands in the way. -/
theorem Vacant.createAlong (vacant : t.Vacant p) (named : last ≠ "") (kind : NodeKind)
    (via : List String) : ∃ t' id, Tree.createAlong kind t p via last = (t', .ok id) := by
  induction via generalizing t p with
  | nil =>
    obtain ⟨t', placed, -⟩ := vacant.place last kind
    exact ⟨t', t.size, by simp only [Tree.createAlong, if_neg named, placed]⟩
  | cons segment via ih =>
    obtain ⟨between, placed, added⟩ := vacant.place segment .container
    simp only [Tree.createAlong, placed]
    exact ih added.vacant

/-- What fails, fails before anything new was created. -/
theorem eq_of_createAlong_eq_error {obstacle : Obstacle} (named : last ≠ "")
    (failed : createAlong kind t p via last = (t', .error obstacle)) : t' = t := by
  induction via generalizing t p with
  | nil =>
    rw [createAlong, if_neg named] at failed
    split at failed
    next => cases failed
    next =>
      cases failed
      rfl
  | cons segment via ih =>
    unfold createAlong at failed
    split at failed
    next between next_id placed =>
      rcases place_cases placed with ⟨rfl, -, -⟩ | ⟨rfl, added⟩
      · exact ih failed
      · obtain ⟨_, _, created⟩ := added.vacant.createAlong named kind via
        rw [created] at failed
        cases failed
    next =>
      cases failed
      rfl

/-- Every new node lies on the way to the one asked for. -/
theorem exists_descend_of_createAlong_eq_ok
    (created : createAlong kind t p via last = (t', .ok id)) (new : t.size ≤ x)
    (present : x < t'.size) :
    ∃ above below, via ++ [last] = above ++ below ∧ t'.descend p above = some x := by
  induction via generalizing t p with
  | nil =>
    have way := descend_of_createAlong_eq_ok created
    refine ⟨[last], [], rfl, ?_⟩
    unfold createAlong at created
    split at created
    next => cases created
    next =>
      split at created
      next placed =>
        cases created
        rcases place_cases placed with ⟨rfl, -, -⟩ | ⟨rfl, added⟩
        · exact absurd present (Nat.not_lt.mpr new)
        · rw [added.size] at present
          rw [Nat.le_antisymm (Nat.le_of_lt_succ present) new]
          exact way
      next => cases created
  | cons segment via ih =>
    unfold createAlong at created
    split at created
    next between next_id placed =>
      have grown := extends_createAlong kind between next_id via last
      rw [created] at grown
      have child := grown.child? (child?_of_place_eq_ok placed)
      by_cases old : x < between.size
      · rcases place_cases placed with ⟨rfl, -, -⟩ | ⟨rfl, added⟩
        · exact absurd old (Nat.not_lt.mpr new)
        · rw [added.size] at old
          refine ⟨[segment], via ++ [last], rfl, ?_⟩
          rw [descend_singleton, Nat.le_antisymm (Nat.le_of_lt_succ old) new]
          exact child
      · obtain ⟨above, below, parts, way⟩ := ih created (Nat.le_of_not_lt old)
        refine ⟨segment :: above, below, by rw [List.cons_append, parts, List.cons_append], ?_⟩
        rw [descend_cons, child]
        exact way
    next => cases created

end Along

/-! ## Obstacles -/

/-- A leaf stands on the way down, or a container at its end. -/
def Blocked (t : Tree) (start : NodeId) (segments : List String) : Prop :=
  ∃ above below x, segments = above ++ below ∧ t.descend start above = some x ∧
    (t.isLeaf x = true ↔ below ≠ [])

theorem Blocked.cons {segment : String} {segments : List String}
    (child : t.child? p segment = some id) (blocked : t.Blocked id segments) :
    t.Blocked p (segment :: segments) := by
  obtain ⟨above, below, x, rfl, way, ends⟩ := blocked
  refine ⟨segment :: above, below, x, rfl, ?_, ends⟩
  rw [descend_cons, child]
  exact way

theorem SameShape.blocked (same : SameShape t t') : t'.Blocked = t.Blocked := by
  funext start segments
  simp only [Tree.Blocked, same.descend, same.isLeaf]

theorem Extends.blocked (grown : Extends t t') (tree : t.Contained) (present : p < t.size)
    {segments : List String} (blocked : t.Blocked p segments) : t'.Blocked p segments := by
  obtain ⟨above, below, x, parts, way, ends⟩ := blocked
  refine ⟨above, below, x, parts, grown.descend way, ?_⟩
  rw [Tree.isLeaf, grown.kind x (tree.lt_of_descend present way)]
  exact ends

theorem child?_eq_none_of_isLeaf (leaf : t.isLeaf p = true) (name : String) :
    t.child? p name = none := by
  apply lookup_eq_none_iff.mpr
  intro child listed
  rw [isLeaf_eq_false_of_mem_registered listed] at leaf
  cases leaf

theorem not_blocked_of_isLeaf {segments : List String} (found : t.descend p segments = some id)
    (leaf : t.isLeaf id = true) : ¬ t.Blocked p segments := by
  intro blocked
  obtain ⟨above, below, x, rfl, way, ends⟩ := blocked
  rw [descend_append, way, Option.bind_some] at found
  cases below with
  | nil =>
    cases found
    exact ends.mp leaf rfl
  | cons segment below =>
    have inside := ends.mpr (List.cons_ne_nil _ _)
    rw [descend_cons, child?_eq_none_of_isLeaf inside] at found
    cases found

theorem blocked_of_place_eq_error {name : String} {kind : NodeKind} {obstacle : Obstacle}
    {below : List String} (present : p < t.size) (failed : t.place p name kind = .error obstacle)
    (ends : kind = .leaf ↔ below = []) : t.Blocked p (name :: below) := by
  rcases isLeaf_or_child?_of_place_eq_error present failed with inside | ⟨child, found, other⟩
  · refine ⟨[], name :: below, p, rfl, rfl, ?_⟩
    simp [inside]
  · refine ⟨[name], below, child, rfl, ?_, ?_⟩
    · rw [descend_singleton]
      exact found
    · have more : below ≠ [] ↔ kind ≠ .leaf := not_congr ends.symm
      rw [Tree.isLeaf, decide_eq_true_iff, more]
      cases kind <;> cases childKind : t.kind child <;> simp_all

/-- Only an obstacle keeps a leaf from being created. -/
theorem blocked_of_createAlong_eq_error {via : List String} {last : String} {obstacle : Obstacle}
    (tree : t.Contained) (present : p < t.size) (named : ∀ segment ∈ via ++ [last], segment ≠ "")
    (failed : createAlong .leaf t p via last = (t', .error obstacle)) :
    t'.Blocked p (via ++ [last]) := by
  induction via generalizing t p with
  | nil =>
    unfold createAlong at failed
    split at failed
    next empty => exact absurd empty (named last (by simp))
    next =>
      split at failed
      next => cases failed
      next error =>
        cases failed
        exact blocked_of_place_eq_error present error (by simp)
  | cons segment via ih =>
    rw [List.cons_append, List.forall_mem_cons] at named
    unfold createAlong at failed
    split at failed
    next between next_id placed =>
      obtain ⟨tree', present'⟩ := tree.place named.1 placed
      have grown := extends_createAlong .leaf between next_id via last
      rw [failed] at grown
      exact (ih tree' present' named.2 failed).cons (grown.child? (child?_of_place_eq_ok placed))
    next error =>
      cases failed
      exact blocked_of_place_eq_error present error (by simp)

/-! ## A leaf for a path -/

section CreateLeaf

variable {path : String}

theorem extends_createLeaf (t : Tree) (p : NodeId) (path : String) :
    Extends t (t.createLeaf p path).1 := extends_createAlong _ _ _ _ _

theorem Reachable.createLeaf (reached : t.Reachable) (p : NodeId) (path : String) :
    (t.createLeaf p path).1.Reachable := .step (.createLeaf p path) reached

theorem createLeaf_eq (segmented : Segmented path) : ∃ via last, split '.' path = via ++ [last] ∧
    (t.createLeaf p path).1 = (createAlong .leaf t p via last).1 ∧
    ∀ id, (t.createLeaf p path).2 = .ok id ↔ (createAlong .leaf t p via last).2 = .ok id := by
  refine ⟨_, _, split_eq_route segmented, rfl, ?_⟩
  intro id
  change Except.mapError _ (createAlong .leaf t p _ _).2 = .ok id ↔ _
  generalize (createAlong .leaf t p _ _).2 = result
  cases result <;> simp [Except.mapError]

theorem isLeaf_createLeaf (segmented : Segmented path) :
    (t.createLeaf p path).1.isLeaf x = true ↔
      t.isLeaf x = true ∨ (t.createLeaf p path).2 = .ok x := by
  constructor
  · intro leaf
    obtain ⟨via, last, -, same, result⟩ := createLeaf_eq (t := t) (p := p) segmented
    rw [same] at leaf
    exact (isLeaf_createAlong leaf).imp_right (result x).mpr
  · intro either
    cases either with
    | inl old => exact (extends_createLeaf t p path).isLeaf old
    | inr new => exact isLeaf_of_createLeaf_eq_ok (Prod.ext rfl new)

theorem descend_of_createLeaf_eq_ok (segmented : Segmented path)
    (created : t.createLeaf p path = (t', .ok id)) : t'.descend p (split '.' path) = some id := by
  obtain ⟨via, last, parts, same, result⟩ := createLeaf_eq (t := t) (p := p) segmented
  rw [created] at same result
  rw [parts]
  exact descend_of_createAlong_eq_ok (Prod.ext same.symm ((result id).mp rfl))

theorem eq_of_createLeaf_eq_error (segmented : Segmented path) {problem : Problem}
    (failed : t.createLeaf p path = (t', .error problem)) : t' = t := by
  obtain ⟨via, last, parts, same, result⟩ := createLeaf_eq (t := t) (p := p) segmented
  rw [failed] at same result
  have named : last ≠ "" := segmented last (by rw [parts]; simp)
  cases outcome : (createAlong .leaf t p via last).2 with
  | ok id => cases (result id).mpr outcome
  | error obstacle => exact eq_of_createAlong_eq_error named (Prod.ext same.symm outcome)

theorem exists_descend_of_createLeaf_eq_ok (segmented : Segmented path)
    (created : t.createLeaf p path = (t', .ok id)) (new : t.size ≤ x) (present : x < t'.size) :
    ∃ above below, split '.' path = above ++ below ∧ t'.descend p above = some x := by
  obtain ⟨via, last, parts, same, result⟩ := createLeaf_eq (t := t) (p := p) segmented
  rw [created] at same result
  rw [parts]
  exact exists_descend_of_createAlong_eq_ok (Prod.ext same.symm ((result id).mp rfl)) new present

/-- A leaf that the path did not lead to before is a new one. -/
theorem isLeaf_eq_false_of_createLeaf_eq_ok (reached : t.Reachable) (segmented : Segmented path)
    (created : t.createLeaf root path = (t', .ok id))
    (absent : ∀ x, t.findByName? path = some x → t.isLeaf x = false) : t.isLeaf id = false := by
  rw [← Bool.not_eq_true]
  intro old
  have grown := extends_createLeaf t root path
  have tree' := (reached.createLeaf root path).wellFormed.toContained
  have found := descend_of_createLeaf_eq_ok segmented created
  rw [created] at grown tree'
  have before := grown.descend_of_lt reached.wellFormed.toContained tree' found (lt_of_isLeaf old)
  rw [← findByName?_eq segmented.ne_empty] at before
  simp [absent id before] at old

theorem blocked_of_createLeaf_eq_error (tree : t.Contained) (present : p < t.size)
    (segmented : Segmented path) {problem : Problem}
    (failed : t.createLeaf p path = (t', .error problem)) : t'.Blocked p (split '.' path) := by
  obtain ⟨via, last, parts, same, result⟩ := createLeaf_eq (t := t) (p := p) segmented
  rw [failed] at same result
  have named : ∀ segment ∈ via ++ [last], segment ≠ "" := parts ▸ segmented
  rw [parts]
  cases outcome : (createAlong .leaf t p via last).2 with
  | ok id => cases (result id).mpr outcome
  | error obstacle =>
    exact blocked_of_createAlong_eq_error tree present named (Prod.ext same.symm outcome)

end CreateLeaf

/-! ## Full names -/

theorem Reachable.name_root (reached : t.Reachable) : t.name root = "" := by
  induction reached with
  | empty => rfl
  | @step t change reached ih =>
    have present := reached.wellFormed.size_pos
    cases change with
    | createContainer parent path =>
      rw [← ih]
      exact (extends_createAlong _ _ _ _ _).name root present
    | createLeaf parent path =>
      rw [← ih]
      exact (extends_createLeaf t parent path).name root present
    | link source target =>
      rcases t.perform_link source target with same | added
      · rw [same]
        exact ih
      · rw [added.shape.name]
        exact ih
    | recordMissing leaf name =>
      rcases t.perform_recordMissing leaf name with same | noted
      · rw [same]
        exact ih
      · rw [noted, (sameShape_noteMissing leaf name).name]
        exact ih
    | setMode id mode =>
      rw [perform, (sameShape_setMode id mode).name]
      exact ih

theorem Reachable.fullName_root (reached : t.Reachable) : t.fullName root = "" := by
  rw [fullName, reached.wellFormed.root_parent]
  exact reached.name_root

theorem fullName_eq (tree : t.Contained) (above : t.parent? id = some p) :
    t.fullName id = if t.fullName p = "" then t.name id else t.fullName p ++ "." ++ t.name id := by
  rw [fullName.eq_1 t id, above]
  exact if_pos (tree.parent_lt above)

/-- The full name of a node is made of the names on the way to it. -/
theorem Reachable.split_fullName (reached : t.Reachable) {segments : List String}
    (nonempty : segments ≠ [])
    (plain : ∀ segment ∈ segments, segment ≠ "" ∧ split '.' segment = [segment])
    (found : t.descend root segments = some id) : split '.' (t.fullName id) = segments := by
  have tree := reached.wellFormed.toContained
  -- A full name grows at its end, so the induction is on the last segment.
  induction segments using List.reverseRecOn generalizing id with
  | nil => exact absurd rfl nonempty
  | append_singleton segments last ih =>
    rw [descend_append, Option.bind_eq_some_iff] at found
    obtain ⟨above, way, child⟩ := found
    rw [descend_singleton] at child
    obtain ⟨parent, named⟩ := tree.child?_eq_some_iff.mp child
    have single := (plain last (by simp)).2
    rw [fullName_eq tree parent, named]
    by_cases first : segments = []
    · rw [first, descend_nil, Option.some.injEq] at way
      rw [← way, reached.fullName_root, if_pos rfl, single, first, List.nil_append]
    · have earlier : ∀ segment ∈ segments, segment ≠ "" ∧ split '.' segment = [segment] :=
        fun segment listed => plain segment (List.mem_append_left _ listed)
      have upper := ih first earlier way
      have long : t.fullName above ≠ "" := by
        intro empty
        rw [empty] at upper
        exact (earlier "" (by rw [← upper]; decide)).1 rfl
      have joined := split_append '.' (t.fullName above) last
      rw [if_neg long]
      rw [upper, single] at joined
      exact joined

theorem Reachable.fullName_eq_of_findByName? (reached : t.Reachable) {path : String}
    (segmented : Segmented path) (found : t.findByName? path = some id) : t.fullName id = path := by
  rw [findByName?_eq segmented.ne_empty] at found
  have plain : ∀ segment ∈ split '.' path, segment ≠ "" ∧ split '.' segment = [segment] :=
    fun segment part => ⟨segmented segment part, split_of_mem_split part⟩
  exact split_injective (reached.split_fullName (split_ne_nil _ _) plain found)

theorem displayName_eq {input name : String} (full : t.fullName id = input ++ "." ++ name)
    (colon : ':' ∈ input.toList) (undotted : '.' ∉ input.toList) : t.displayName id = name := by
  have cut : atFirst? '.' (input ++ "." ++ name) = some (input, name) :=
    atFirst?_append name undotted
  simp [displayName, full, cut, colon]

end ClassCoupling.Tree
