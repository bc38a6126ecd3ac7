import ClassCoupling.Proofs.Tree.Creation
import ClassCoupling.Proofs.Tree.Representation

/-!
# Names as seen from above

A node has a name as seen from itself and from every container it lies in, and from nowhere else.
What such a name lacks of the full name is the full name of the container. The leaves that explain a
link lie at or below its ends, so each of them has a name there.
-/

namespace ClassCoupling.Tree

variable {t : Tree} {id p a u v : NodeId}

/-! ## Relative names -/

theorem relativeName?_self (t : Tree) (id : NodeId) : t.relativeName? id id = some (t.name id) := by
  rw [relativeName?, if_pos (.inl rfl)]

theorem relativeName?_of_parent (above : t.parent? id = some p) :
    t.relativeName? id p = some (t.name id) := by
  rw [relativeName?, if_pos (.inr above)]

theorem relativeName?_of_top (top : t.parent? id = none) (other : a ≠ id) :
    t.relativeName? id a = none := by
  rw [relativeName?, top]
  simp [other]

theorem relativeName?_eq (tree : t.Contained) (above : t.parent? id = some p) (other : a ≠ id)
    (further : a ≠ p) :
    t.relativeName? id a = (t.relativeName? p a).map fun upper => upper ++ "." ++ t.name id := by
  rw [relativeName?, above]
  simp [other, further.symm, tree.parent_lt above]

theorem eq_or_mem_ancestors_of_relativeName? (tree : t.Contained)
    (named : (t.relativeName? id a).isSome = true) : a = id ∨ a ∈ t.ancestors id := by
  induction id using ancestors_induction tree with
  | top id top =>
    by_contra elsewhere
    have other : a ≠ id := fun same => elsewhere (.inl same)
    simp [relativeName?_of_top top other] at named
  | below id p above ih =>
    rw [ancestors_eq tree above, List.mem_cons]
    by_cases other : a = id
    · exact .inl other
    by_cases further : a = p
    · exact .inr (.inl further)
    rw [relativeName?_eq tree above other further, Option.isSome_map] at named
    exact .inr (ih named)

/-- From a container above it a node has a name, which completes the full name of the container. -/
theorem Contained.exists_relativeName? (tree : t.Contained) (below : a ∈ t.ancestors id) :
    ∃ name, t.relativeName? id a = some name ∧ name ≠ "" ∧
      t.fullName id = qualified (t.fullName a) name := by
  induction id using ancestors_induction tree with
  | top id top => simp [ancestors_eq_nil top] at below
  | below id p above ih =>
    have older := tree.parent_lt above
    have full : t.fullName id = qualified (t.fullName p) (t.name id) := fullName_eq tree above
    rw [ancestors_eq tree above, List.mem_cons] at below
    rcases below with rfl | further
    · refine ⟨t.name id, relativeName?_of_parent above, ?_, full⟩
      exact tree.name_ne (lt_of_parent?_eq_some above) (Nat.ne_of_gt (Nat.zero_lt_of_lt older))
    · obtain ⟨upper, named, nonempty, joined⟩ := ih further
      have lower := lt_of_mem_ancestors tree further
      refine ⟨upper ++ "." ++ t.name id, ?_, by simp, ?_⟩
      · rw [relativeName?_eq tree above (Nat.ne_of_lt (Nat.lt_trans lower older))
          (Nat.ne_of_lt lower), named]
        rfl
      · rw [full, joined, qualified_qualified _ nonempty]

theorem Contained.relativeName?_isSome_iff (tree : t.Contained) :
    (t.relativeName? id a).isSome = true ↔ a = id ∨ a ∈ t.ancestors id := by
  refine ⟨eq_or_mem_ancestors_of_relativeName? tree, ?_⟩
  rintro (rfl | below)
  · rw [relativeName?_self]
    rfl
  · obtain ⟨name, named, -⟩ := tree.exists_relativeName? below
    rw [named]
    rfl

/-! ## Completed names -/

/-- A name as seen from a container with the container's full name in front, and with nothing in
front if the container is the root. -/
def completed (t : Tree) (container : NodeId) (name : String) : String :=
  if container = root then name else t.fullName container ++ "." ++ name

theorem Reachable.qualified_fullName (reached : t.Reachable) (present : a < t.size)
    (name : String) : qualified (t.fullName a) name = t.completed a name := by
  simp only [qualified, completed, reached.fullName_eq_empty_iff present]

theorem Reachable.exists_completed (reached : t.Reachable) (below : a ∈ t.ancestors id) :
    ∃ name, t.relativeName? id a = some name ∧ t.fullName id = t.completed a name := by
  have tree := reached.wellFormed.toContained
  have inside : id < t.size := lt_of_ancestors_ne_nil (List.ne_nil_of_mem below)
  have present : a < t.size := Nat.lt_trans (lt_of_mem_ancestors tree below) inside
  obtain ⟨name, named, -, full⟩ := tree.exists_relativeName? below
  exact ⟨name, named, full.trans (reached.qualified_fullName present name)⟩

/-! ## Explanations -/

/-- The names in an explanation are relative names. -/
theorem Contained.explain_relative (tree : t.Contained) (u v : NodeId) :
    (t.explain u v).map (Prod.map some some) =
      (t.reasons u v).map (Prod.map (t.relativeName? · u) (t.relativeName? · v)) := by
  have named {x a : NodeId} (explains : x ∈ t.reasonLeaves a) :
      some ((t.relativeName? x a).getD (t.fullName x)) = t.relativeName? x a := by
    have known := tree.relativeName?_isSome_iff.mpr
      (eq_or_mem_ancestors_of_mem_reasonLeaves tree explains)
    obtain ⟨name, same⟩ := Option.isSome_iff_exists.mp known
    rw [same]
    rfl
  rw [explain, List.map_map]
  refine List.map_congr_left fun pair reason => ?_
  obtain ⟨source, -, target⟩ := mem_reasons.mp reason
  exact Prod.ext (named source) (named target)

/-- Between containers the names in an explanation complete to full names. -/
theorem Reachable.explain_completed (reached : t.Reachable) (containerU : t.isLeaf u = false)
    (containerV : t.isLeaf v = false) :
    (t.explain u v).map (Prod.map (t.completed u) (t.completed v)) =
      (t.reasons u v).map (Prod.map t.fullName t.fullName) := by
  have tree := reached.wellFormed.toContained
  have full {x a : NodeId} (container : t.isLeaf a = false) (explains : x ∈ t.reasonLeaves a) :
      t.completed a ((t.relativeName? x a).getD (t.fullName x)) = t.fullName x := by
    obtain ⟨name, named, whole⟩ :=
      reached.exists_completed (mem_ancestors_of_mem_reasonLeaves tree container explains)
    rw [named, whole]
    rfl
  rw [explain, List.map_map]
  refine List.map_congr_left fun pair reason => ?_
  obtain ⟨source, -, target⟩ := mem_reasons.mp reason
  exact Prod.ext (full containerU source) (full containerV target)

/-- A node has a name as seen from itself and from its ancestors, and from an ancestor it completes
to the full name. Explanations consist of such names, so that between containers they give back the
full names of the leaves that explain the link. -/
theorem explanations_name_leaves_from_above (reached : t.Reachable) :
    (∀ id a, (t.relativeName? id a).isSome = true ↔ a = id ∨ a ∈ t.ancestors id) ∧
    (∀ id, ∀ a ∈ t.ancestors id, ∃ name, t.relativeName? id a = some name ∧
      t.fullName id = t.completed a name) ∧
    (∀ u v, (t.explain u v).map (Prod.map some some) =
      (t.reasons u v).map (Prod.map (t.relativeName? · u) (t.relativeName? · v))) ∧
    ∀ u v, t.isLeaf u = false → t.isLeaf v = false →
      (t.explain u v).map (Prod.map (t.completed u) (t.completed v)) =
        (t.reasons u v).map (Prod.map t.fullName t.fullName) := by
  have tree := reached.wellFormed.toContained
  exact ⟨fun _ _ => tree.relativeName?_isSome_iff, fun _ _ => reached.exists_completed,
    tree.explain_relative, fun _ _ => reached.explain_completed⟩

/-- Leaves at different depths of a collapsed container, one with a name that begins with a dot. -/
def terraced : Tree :=
  [.createLeaf root "a.b.X", .createLeaf root "a..Y", .createLeaf root "c.Z", .link 3 6,
    .link 4 6, .link 6 4, .setMode 1 .collapsed].foldl perform .empty

theorem explanations_name_leaves_from_above_terraced :
    terraced.Reachable ∧ terraced.ancestors 3 = [2, 1, 0] ∧
    (terraced.relativeName? 3 1).isSome = true ∧ (terraced.relativeName? 3 5).isSome = false ∧
    terraced.isLeaf 0 = false ∧ terraced.isLeaf 1 = false ∧
    terraced.reasons 1 0 = [(3, 6), (4, 6)] ∧
    terraced.explain 1 0 = [("b.X", "c.Z"), (".Y", "c.Z")] ∧
    (terraced.reasons 1 0).map (Prod.map terraced.fullName terraced.fullName) =
      [("a.b.X", "c.Z"), ("a..Y", "c.Z")] := by
  have reached : terraced.Reachable := Reachable.empty.run _
  have up : terraced.ancestors 3 = [2, 1, 0] := by with_unfolding_all rfl
  have top : terraced.isLeaf 0 = false := by with_unfolding_all rfl
  have container : terraced.isLeaf 1 = false := by with_unfolding_all rfl
  have explained : terraced.explain 1 0 = [("b.X", "c.Z"), (".Y", "c.Z")] := by
    with_unfolding_all rfl
  have reasons : terraced.reasons 1 0 = [(3, 6), (4, 6)] := by with_unfolding_all rfl
  have first : terraced.fullName 1 = "a" := by with_unfolding_all rfl
  obtain ⟨known, -, -, whole⟩ := explanations_name_leaves_from_above reached
  refine ⟨reached, up, (known 3 1).mpr (by simp [up]), ?_, top, container, reasons, explained, ?_⟩
  · rw [← Bool.not_eq_true, known, up]
    decide
  · rw [← whole 1 0 container top, explained]
    simp [completed, root, first]

end ClassCoupling.Tree
