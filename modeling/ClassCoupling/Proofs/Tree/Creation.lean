import ClassCoupling.Proofs.Tree.Path

/-!
# Creation, look-up and names

Creation cuts a path at one dot after the other and stops at a dot that begins what is left; a
search cuts it at every dot; a full name is put together from the names on the way up. They agree on
every path: the node created at a path is called by it, and it is found by it if no segment of the
path is empty. A creation that fails leaves the tree as it was, but for a path that ends in a dot:
the containers before the dot are there by then.
-/

namespace ClassCoupling.Tree

open Text

variable {t t' : Tree} {kind : NodeKind} {id p x : NodeId} {via : List String} {last path : String}

/-! ## The names on a path -/

theorem intercalate_route (path : List Char) :
    ['.'].intercalate ((route path).1 ++ [(route path).2]) = path := by
  fun_induction route path with
  | case1 => rfl
  | case2 cs => simp [List.intercalate]
  | case3 c cs differs segment rest cut more last routed ih =>
    rw [routed] at ih
    rw [List.cons_append, List.intercalate_cons_of_ne_nil (by simp), ih, eq_append_of_cutFirst cut]
    simp
  | case4 c cs differs cut => simp [List.intercalate]

theorem not_mem_of_mem_route {path segment : List Char} (listed : segment ∈ (route path).1) :
    '.' ∉ segment := by
  fun_induction route path with
  | case1 => cases listed
  | case2 => cases listed
  | case3 c cs differs segment' rest cut more last routed ih =>
    rw [routed] at ih
    rcases List.mem_cons.mp listed with rfl | later
    · rw [List.mem_cons, not_or]
      exact ⟨Ne.symm differs, not_mem_of_cutFirst cut⟩
    · exact ih later
  | case4 => cases listed

theorem route_eq {c : Char} {cs segment rest : List Char} (differs : c ≠ '.')
    (cut : cutFirst '.' cs = some (segment, rest)) :
    route (c :: cs) = ((c :: segment) :: (route rest).1, (route rest).2) := by
  rw [route, if_neg differs]
  split
  next segment' rest' cut' =>
    rw [cut] at cut'
    cases cut'
    rfl
  next none =>
    rw [cut] at none
    cases none

/-- A path passes the segments before one of its dots if none of them is empty. -/
theorem route_append {above : List Char} (segmented : ∀ segment ∈ above.splitOn '.', segment ≠ [])
    (rest : List Char) :
    route (above ++ '.' :: rest) = (above.splitOn '.' ++ (route rest).1, (route rest).2) := by
  fun_induction route above with
  | case1 => exact absurd rfl (segmented [] (by simp))
  | case2 cs =>
    have cut : cutFirst '.' ('.' :: cs) = some ([], cs) := by simp [cutFirst]
    rw [splitOn_of_cutFirst_eq_some cut] at segmented
    exact absurd rfl (segmented [] List.mem_cons_self)
  | case3 c cs differs segment inner cut more last routed ih =>
    have first : cutFirst '.' (c :: cs) = some (c :: segment, inner) := by
      simp [cutFirst, differs, cut]
    have further : cutFirst '.' (cs ++ '.' :: rest) = some (segment, inner ++ '.' :: rest) := by
      rw [eq_append_of_cutFirst cut, List.append_assoc]
      exact cutFirst_append (not_mem_of_cutFirst cut)
    rw [splitOn_of_cutFirst_eq_some first, List.forall_mem_cons] at segmented
    rw [splitOn_of_cutFirst_eq_some first, List.cons_append, route_eq differs further,
      ih segmented.2]
    rfl
  | case4 c cs differs cut =>
    have none : cutFirst '.' (c :: cs) = none := by simp [cutFirst, differs, cut]
    have whole : cutFirst '.' (cs ++ '.' :: rest) = some (cs, rest) :=
      cutFirst_append (cutFirst_eq_none_iff.mp cut)
    rw [splitOn_of_cutFirst_eq_none none, List.cons_append, route_eq differs whole]
    rfl

/-- The names of the containers that a path passes. -/
def passed (path : String) : List String := (route path.toList).1.map String.ofList

/-- The name that a path ends in. -/
def ending (path : String) : String := String.ofList (route path.toList).2

theorem join_passed_ending (path : String) : join "." (passed path ++ [ending path]) = path := by
  have whole := intercalate_route path.toList
  rw [join, ← String.toList_inj, String.toList_intercalate]
  simpa [passed, ending, Function.comp_def] using whole

theorem passed_append {above : String} (segmented : Segmented above) (rest : String) :
    passed (above ++ "." ++ rest) = split '.' above ++ passed rest ∧
      ending (above ++ "." ++ rest) = ending rest := by
  have parts : ∀ segment ∈ above.toList.splitOn '.', segment ≠ [] := by
    intro segment part
    simpa using segmented _ (List.mem_map_of_mem part)
  have whole : (above ++ "." ++ rest).toList = above.toList ++ '.' :: rest.toList := by simp
  simp only [passed, ending, whole, route_append parts, List.map_append, split, and_self]

theorem ne_empty_of_mem_passed {segment : String} (listed : segment ∈ passed path) :
    segment ≠ "" := by
  obtain ⟨cs, mem, rfl⟩ := List.mem_map.mp listed
  simpa using ne_nil_of_mem_route mem

theorem create_eq (t : Tree) (kind : NodeKind) (p : NodeId) (path : String) :
    t.create kind p path =
      let made := createAlong kind t p (passed path) (ending path)
      (made.1, made.2.mapError fun obstacle => .structural path obstacle.describe) := rfl

theorem create_eq_ok_iff : t.create kind p path = (t', .ok id) ↔
    createAlong kind t p (passed path) (ending path) = (t', .ok id) := by
  rw [create_eq]
  generalize createAlong kind t p (passed path) (ending path) = made
  obtain ⟨grown, result⟩ := made
  cases result <;> simp [Except.mapError]

theorem create_eq_error_iff {problem : Problem} : t.create kind p path = (t', .error problem) ↔
    ∃ obstacle, createAlong kind t p (passed path) (ending path) = (t', .error obstacle) ∧
      problem = .structural path obstacle.describe := by
  rw [create_eq]
  generalize createAlong kind t p (passed path) (ending path) = made
  obtain ⟨grown, result⟩ := made
  cases result <;> simp [Except.mapError, eq_comm]

theorem isLeaf_or_eq_of_createLeaf (leaf : (t.createLeaf p path).1.isLeaf x = true) :
    t.isLeaf x = true ∨ (t.createLeaf p path).2 = .ok x := by
  have either : t.isLeaf x = true ∨
      (createAlong .leaf t p (passed path) (ending path)).2 = .ok x := isLeaf_createAlong leaf
  refine either.imp_right fun new => ?_
  rw [createLeaf, create_eq]
  dsimp only
  rw [new]
  rfl

/-! ## Finding what was created -/

theorem Contained.ne_empty_of_descend (tree : t.Contained) {segments : List String}
    (found : t.descend p segments = some id) : ∀ segment ∈ segments, segment ≠ "" := by
  induction segments generalizing p with
  | nil => simp
  | cons segment segments ih =>
    rw [descend_cons, Option.bind_eq_some_iff] at found
    obtain ⟨child, first, rest⟩ := found
    obtain ⟨above, named⟩ := tree.child?_eq_some_iff.mp first
    have below : child ≠ root := by
      rintro rfl
      rw [tree.root_parent] at above
      cases above
    rw [List.forall_mem_cons]
    exact ⟨named ▸ tree.name_ne (lt_of_parent?_eq_some above) below, ih rest⟩

/-- A node is above all that a search from it leads down to. -/
theorem Contained.mem_ancestors_of_descend (tree : t.Contained) {segments : List String}
    (more : segments ≠ []) (found : t.descend p segments = some id) : p ∈ t.ancestors id := by
  induction segments generalizing p with
  | nil => exact absurd rfl more
  | cons segment segments ih =>
    rw [descend_cons, Option.bind_eq_some_iff] at found
    obtain ⟨child, first, rest⟩ := found
    have above := (tree.child?_eq_some_iff.mp first).1
    have upper : p ∈ t.ancestors child := by
      rw [ancestors_eq tree above]
      exact List.mem_cons_self
    by_cases final : segments = []
    · subst final
      cases rest
      exact upper
    · exact mem_ancestors_trans tree (ih final rest) upper

theorem find?_eq (named : path ≠ "") : t.find? p path = t.descend p (split '.' path) := by
  rw [find?, if_neg named]
  rfl

theorem Contained.segmented_of_find? (tree : t.Contained) (found : t.find? p path = some id) :
    Segmented path := by
  by_cases empty : path = ""
  · simp [find?, empty] at found
  · rw [find?_eq empty] at found
    exact tree.ne_empty_of_descend found

theorem split_eq_passed (segmented : Segmented path) :
    split '.' path = passed path ++ [ending path] := split_eq_route segmented

theorem Contained.find?_of_create (tree : t'.Contained)
    (created : t.create kind p path = (t', .ok id)) :
    t'.find? p path = if Segmented path then some id else none := by
  split
  next segmented =>
    rw [find?_eq segmented.ne_empty, split_eq_passed segmented]
    exact descend_of_createAlong_eq_ok (create_eq_ok_iff.mp created)
  next blank =>
    cases found : t'.find? p path with
    | none => rfl
    | some x => exact absurd (tree.segmented_of_find? found) blank

/-! ## Creating again -/

theorem place_of_child? (found : t.child? p last = some id) (same : t.kind id = kind) :
    t.place p last kind = .ok (t, id) := by
  unfold child? registered at found
  split at found
  next looked =>
    unfold place
    simp only [looked, found, if_pos same]
  next => cases found

theorem kind_of_child? (found : t.child? p last = some id) : t.kind p = .container := by
  have holds : t.isLeaf p = false := by
    rw [← Bool.not_eq_true]
    intro leaf
    rw [child?_eq_none_of_isLeaf leaf] at found
    cases found
  cases kind : t.kind p with
  | container => rfl
  | leaf => simp [isLeaf, kind] at holds

/-- Where the way is there already, creation only goes down it. -/
theorem createAlong_of_descend (named : last ≠ "") (same : t.kind id = kind)
    (found : t.descend p (via ++ [last]) = some id) :
    createAlong kind t p via last = (t, .ok id) := by
  induction via generalizing p with
  | nil =>
    rw [List.nil_append, descend_singleton] at found
    simp only [createAlong, if_neg named, place_of_child? found same]
  | cons segment via ih =>
    rw [List.cons_append, descend_cons, Option.bind_eq_some_iff] at found
    obtain ⟨child, first, rest⟩ := found
    -- A node with something below it is a container, as creation asks of it.
    have inside : t.kind child = .container := by
      obtain ⟨next, more, parts⟩ := List.exists_cons_of_ne_nil (List.append_ne_nil_of_right_ne_nil
        via (List.cons_ne_nil last []))
      rw [parts, descend_cons, Option.bind_eq_some_iff] at rest
      obtain ⟨_, below, -⟩ := rest
      exact kind_of_child? below
    simp only [createAlong, place_of_child? first inside]
    exact ih rest

theorem lt_of_child?_eq_some (found : t.child? p last = some id) : p < t.size := by
  by_contra absent
  rw [child?, registered_eq, node?_eq_none (Nat.le_of_not_lt absent)] at found
  cases found

theorem lt_of_place_eq_ok (placed : t.place p last kind = .ok (t', id)) : p < t.size := by
  rcases place_cases placed with ⟨rfl, found, -⟩ | ⟨-, added⟩
  · exact lt_of_child?_eq_some found
  · exact added.parent_lt

theorem lt_of_createAlong_eq_ok (created : createAlong kind t p via last = (t', .ok id)) :
    p < t.size := by
  unfold createAlong at created
  split at created
  next =>
    split at created
    next => cases created
    next =>
      split at created
      next placed => exact lt_of_place_eq_ok placed
      next => cases created
  next =>
    split at created
    next placed => exact lt_of_place_eq_ok placed
    next => cases created

/-- Nothing is created where there was a node. -/
theorem Contained.eq_of_descend (tree : t.Contained)
    (created : createAlong kind t p via last = (t', .ok id))
    (found : t.descend p (via ++ [last]) = some x) : t' = t := by
  have grown := extends_createAlong kind t p via last
  have way := descend_of_createAlong_eq_ok created
  have same := kind_of_createAlong_eq_ok created
  have named := tree.ne_empty_of_descend found last (by simp)
  have present := tree.lt_of_descend (lt_of_createAlong_eq_ok created) found
  rw [created] at grown
  cases Option.some.inj ((grown.descend found).symm.trans way)
  have again := createAlong_of_descend named ((grown.kind id present).symm.trans same) found
  exact congrArg Prod.fst (created.symm.trans again)

/-! ## Full names -/

/-- A name below another one. Below the root, whose own name is empty, it stands alone. -/
def qualified (above name : String) : String :=
  if above = "" then name else above ++ "." ++ name

theorem qualified_qualified {above name : String} (rest : String) (named : name ≠ "") :
    qualified (qualified above name) rest = qualified above (name ++ "." ++ rest) := by
  by_cases top : above = ""
  · simp [qualified, top, named]
  · have long : above ++ "." ++ name ≠ "" := by simp [top]
    rw [qualified, qualified, if_neg top, if_neg long, qualified, if_neg top]
    simp only [String.append_assoc]

theorem Contained.fullName_of_descend (tree : t.Contained) {segments : List String}
    (more : segments ≠ []) (found : t.descend p segments = some id) :
    t.fullName id = qualified (t.fullName p) (join "." segments) := by
  induction segments generalizing p with
  | nil => exact absurd rfl more
  | cons segment segments ih =>
    have named := tree.ne_empty_of_descend found segment List.mem_cons_self
    rw [descend_cons, Option.bind_eq_some_iff] at found
    obtain ⟨child, first, rest⟩ := found
    obtain ⟨above, same⟩ := tree.child?_eq_some_iff.mp first
    have upper : t.fullName child = qualified (t.fullName p) segment := by
      rw [fullName_eq tree above, same]
      rfl
    by_cases final : segments = []
    · subst final
      cases rest
      rw [upper, join, String.intercalate_singleton]
    · rw [ih final rest, upper, qualified_qualified _ named, join, join,
        String.intercalate_cons_of_ne_nil final]

theorem Reachable.fullName_eq_empty_iff (reached : t.Reachable) (present : id < t.size) :
    t.fullName id = "" ↔ id = root := by
  constructor
  · intro empty
    by_contra below
    obtain ⟨p, above⟩ := reached.wellFormed.has_parent present below
    have named := reached.wellFormed.name_ne present below
    rw [fullName_eq reached.wellFormed.toContained above] at empty
    split at empty
    next => exact named empty
    next => simp at empty
  · rintro rfl
    exact reached.fullName_root

theorem Extends.fullName (grown : Extends t t') (tree : t.Contained) (tree' : t'.Contained)
    (old : id < t.size) : t'.fullName id = t.fullName id := by
  induction id using ancestors_induction tree with
  | top id top =>
    rw [Tree.fullName, grown.parent? id old, top, Tree.fullName, top]
    exact grown.name id old
  | below id p above ih =>
    have above' : t'.parent? id = some p := by rw [grown.parent? id old, above]
    rw [fullName_eq tree above, fullName_eq tree' above', grown.name id old,
      ih (Nat.lt_trans (tree.parent_lt above) old)]

theorem Reachable.create (reached : t.Reachable) (kind : NodeKind) (p : NodeId) (path : String) :
    (t.create kind p path).1.Reachable := by
  cases kind with
  | container => exact .step (.createContainer p path) reached
  | leaf => exact .step (.createLeaf p path) reached

/-- The nodes of a tree in one that has grown from it. Nothing about them is different, but that
further children may follow those they had. -/
structure Keeps (t t' : Tree) : Prop extends Extends t t' where
  fullName : ∀ id < t.size, t'.fullName id = t.fullName id
  mode : t'.mode = t.mode
  usedBy : t'.usedBy = t.usedBy
  registered : ∀ id, t.registered id <+: t'.registered id

theorem Reachable.keeps_create (reached : t.Reachable) (kind : NodeKind) (p : NodeId)
    (path : String) : Keeps t (t.create kind p path).1 := by
  have tree := reached.wellFormed.toContained
  have tree' := (reached.create kind p path).wellFormed.toContained
  have grown : Extends t (t.create kind p path).1 := extends_createAlong _ _ _ _ _
  have rest : (t.create kind p path).1.mode = t.mode ∧ (t.create kind p path).1.usedBy = t.usedBy ∧
      ∀ id, t.registered id <+: (t.create kind p path).1.registered id := by
    refine create_induction kind (P := fun t' => t'.mode = t.mode ∧ t'.usedBy = t.usedBy ∧
      ∀ id, t.registered id <+: t'.registered id) ?_ p path
      ⟨rfl, rfl, fun id => List.prefix_rfl⟩
    intro t₁ t₂ parent name kind kept named added
    refine ⟨added.mode.trans kept.1, added.links.usedBy.trans kept.2.1, fun id => ?_⟩
    rw [added.registered]
    split
    next here =>
      rw [here]
      exact (kept.2.2 parent).trans (List.prefix_append _ _)
    next => exact kept.2.2 id
  exact ⟨grown, fun id old => grown.fullName tree tree' old, rest.1, rest.2.1, rest.2.2⟩

theorem Reachable.fullName_of_create (reached : t.Reachable)
    (created : t.create kind p path = (t', .ok id)) :
    t'.fullName id = if p = root then path else t.fullName p ++ "." ++ path := by
  have tree' := (reached.create kind p path).wellFormed.toContained
  have kept := reached.keeps_create kind p path
  rw [created] at tree' kept
  have along := create_eq_ok_iff.mp created
  have present := lt_of_createAlong_eq_ok along
  rw [tree'.fullName_of_descend (by simp) (descend_of_createAlong_eq_ok along),
    kept.fullName p present, join_passed_ending, qualified]
  simp only [reached.fullName_eq_empty_iff present]

theorem Contained.create_again (tree : t'.Contained)
    (created : t.create kind p path = (t', .ok id)) :
    t'.create kind p path = (t', .ok id) := by
  have along := create_eq_ok_iff.mp created
  have found := descend_of_createAlong_eq_ok along
  have named : ending path ≠ "" := tree.ne_empty_of_descend found _ (by simp)
  exact create_eq_ok_iff.mpr
    (createAlong_of_descend named (kind_of_createAlong_eq_ok along) found)

/-- The node created at a path has the kind asked for and is called by the path below its parent. It
is found there unless a segment of the path is empty. What was there before is kept, and asking
again changes nothing. What is found by a name is called by it. -/
theorem creation_agrees_with_names (reached : t.Reachable) :
    (∀ kind parent path t' id, t.create kind parent path = (t', .ok id) →
      t'.fullName id = (if parent = root then path else t.fullName parent ++ "." ++ path) ∧
      t'.kind id = kind ∧
      t'.find? parent path = (if Segmented path then some id else none) ∧
      Keeps t t' ∧
      t'.create kind parent path = (t', .ok id)) ∧
    ∀ name id, t.findByName? name = some id → t.fullName id = name := by
  constructor
  · intro kind parent path t' id created
    have tree' := (reached.create kind parent path).wellFormed.toContained
    have kept := reached.keeps_create kind parent path
    rw [created] at tree' kept
    exact ⟨reached.fullName_of_create created,
      kind_of_createAlong_eq_ok (create_eq_ok_iff.mp created), tree'.find?_of_create created, kept,
      tree'.create_again created⟩
  · intro name id found
    have tree := reached.wellFormed.toContained
    exact reached.fullName_eq_of_findByName? (tree.segmented_of_find? found) found

/-- Two dots in a row end the way down. What follows the first is one name, which no search
finds. -/
theorem creation_agrees_with_names_interrupted :
    interrupted.Reachable ∧
    (interrupted.createLeaf 3 "y..z.W").2 = .ok 6 ∧
    (interrupted.createLeaf 3 "y..z.W").1.fullName 6 = "x.y..z.W" ∧
    (interrupted.createLeaf 3 "y..z.W").1.find? 3 "y..z.W" = none ∧
    interrupted.findByName? "x.y.E" = some 5 ∧ interrupted.fullName 5 = "x.y.E" := by
  have reached : interrupted.Reachable := Reachable.empty.run _
  have created : (interrupted.createLeaf 3 "y..z.W").2 = .ok 6 := by decide +kernel
  have found : interrupted.findByName? "x.y.E" = some 5 := by decide +kernel
  obtain ⟨made, looked⟩ := creation_agrees_with_names reached
  obtain ⟨called, -, lost, -⟩ := made .leaf 3 "y..z.W" _ 6 (Prod.ext rfl created)
  have above : interrupted.fullName 3 = "x" := looked "x" 3 (by decide +kernel)
  refine ⟨reached, created, ?_, ?_, found, looked "x.y.E" 5 found⟩
  · rw [if_neg (by decide), above] at called
    exact called
  · rw [if_neg (by decide +kernel)] at lost
    exact lost

/-! ## Failed creations -/

/-- Creation of a node without a name gets as far as creation of the last container before it. -/
theorem createAlong_append_empty {front : List String} {segment : String} (named : segment ≠ "") :
    createAlong kind t p (front ++ [segment]) "" =
      ((createAlong .container t p front segment).1,
        (createAlong .container t p front segment).2.bind fun _ => .error .emptySegment) := by
  induction front generalizing t p with
  | nil =>
    simp only [List.nil_append, createAlong, if_neg named]
    cases t.place p segment .container <;> rfl
  | cons first front ih =>
    simp only [List.cons_append, createAlong]
    cases t.place p first .container with
    | ok placed => exact ih
    | error obstacle => rfl

/-- What a creation that fails has created are all the containers on the way, before an empty
name at its end. -/
theorem exists_of_createAlong_eq_error {obstacle : Obstacle}
    (named : ∀ segment ∈ via, segment ≠ "")
    (failed : createAlong kind t p via last = (t', .error obstacle)) (differs : t' ≠ t) :
    last = "" ∧ obstacle = .emptySegment ∧ ∃ front segment id, via = front ++ [segment] ∧
      createAlong .container t p front segment = (t', .ok id) := by
  have blank : last = "" := by
    by_contra named
    exact differs (eq_of_createAlong_eq_error named failed)
  subst blank
  rcases List.eq_nil_or_concat via with rfl | ⟨front, segment, rfl⟩
  · rw [createAlong, if_pos rfl, Prod.mk.injEq] at failed
    exact absurd failed.1.symm differs
  · rw [List.concat_eq_append] at named failed
    have last_named : segment ≠ "" := named segment (by simp)
    rw [createAlong_append_empty last_named] at failed
    rcases outcome : createAlong .container t p front segment with ⟨made, result⟩
    rw [outcome] at failed
    cases result with
    | ok id =>
      cases failed
      exact ⟨rfl, rfl, front, segment, id, List.concat_eq_append, outcome⟩
    | error other =>
      cases failed
      exact absurd (eq_of_createAlong_eq_error last_named outcome) differs

/-- The names on a path that ends in a dot are those of the path without it. -/
theorem exists_append_dot {front : List String} {segment : String} (ends : ending path = "")
    (parts : passed path = front ++ [segment]) :
    ∃ above, path = above ++ "." ∧ Segmented above ∧ split '.' above = front ++ [segment] ∧
      passed above = front ∧ ending above = segment := by
  have absent : ∀ part ∈ front ++ [segment], '.' ∉ part.toList := by
    intro part listed
    rw [← parts] at listed
    obtain ⟨cs, mem, rfl⟩ := List.mem_map.mp listed
    rw [String.toList_ofList]
    exact not_mem_of_mem_route mem
  obtain ⟨above, cut⟩ := exists_split_eq (by simp) absent
  have segmented : Segmented above := by
    intro part listed
    rw [cut, ← parts] at listed
    exact ne_empty_of_mem_passed listed
  have whole : path = above ++ "." := by
    have blank : split '.' "" = [""] := by decide
    have glued := split_append '.' above ""
    have joined := join_split '.' (above ++ "." ++ "")
    change split '.' (above ++ "." ++ "") = _ at glued
    change join "." _ = _ at joined
    rw [glued, cut, ← parts, blank] at joined
    rw [← join_passed_ending path, ends]
    simpa using joined
  have same := (split_eq_passed segmented).symm.trans cut
  obtain ⟨earlier, final⟩ := List.append_inj' same rfl
  exact ⟨above, whole, segmented, cut, earlier, List.singleton_inj.mp final⟩

end ClassCoupling.Tree
