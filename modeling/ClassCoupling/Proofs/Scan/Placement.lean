import ClassCoupling.Proofs.Scan.Reachable
import ClassCoupling.Proofs.Tree.Path

/-!
# Where the units of a scan are placed

Of the units of one path the first is placed, unless a leaf stands on its way or a container at its
end, and then none of them ever is. The leaves of the tree are those of the units placed, and a name
stands for the first unit placed that has it.
-/

namespace ClassCoupling.Scan

open Tree Text

/-- The full name of the leaf that a unit asks for. -/
def ParsedInput.path (unit : ParsedInput) : String := unit.input ++ "." ++ unit.unit.name

/-- A unit and the leaf it was placed at. -/
structure Settled where
  parsed : ParsedInput
  leaf : NodeId
  deriving DecidableEq, Repr

/-- The leaf of the first unit of that name. -/
def leafOf? (placed : List Settled) (name : String) : Option NodeId :=
  (placed.find? fun s => s.parsed.unit.name = name).map (·.leaf)

section LeafOf

variable {placed more : List Settled} {name : String} {x : NodeId}

theorem leafOf?_append :
    leafOf? (placed ++ more) name = (leafOf? placed name).or (leafOf? more name) := by
  rw [leafOf?, List.find?_append, Option.map_or]
  rfl

theorem exists_of_leafOf?_eq_some (found : leafOf? placed name = some x) :
    ∃ s ∈ placed, s.parsed.unit.name = name ∧ s.leaf = x := by
  obtain ⟨s, first, same⟩ := Option.map_eq_some_iff.mp found
  have named := List.find?_some first
  exact ⟨s, List.mem_of_find?_eq_some first, of_decide_eq_true named, same⟩

theorem leafOf?_eq_none_iff :
    leafOf? placed name = none ↔ ∀ s ∈ placed, s.parsed.unit.name ≠ name := by
  simp [leafOf?]

end LeafOf

/-- A placement and what became of the units seen so far. -/
structure Placement.Follows (p : Placement) (seen : List ParsedInput) (placed : List Settled) :
    Prop where
  reached : p.tree.Reachable
  segmented : ∀ unit ∈ seen, Segmented unit.path
  placed_eq : p.placed = placed.map fun s => ⟨s.leaf, s.parsed.unit.dependencies⟩
  lookup : ∀ name, p.byName.lookup name = leafOf? placed name
  in_order : (placed.map (·.parsed)).Sublist seen
  first : ∀ s ∈ placed, seen.find? (fun unit => unit.path = s.parsed.path) = some s.parsed
  settled_or_blocked : ∀ unit ∈ seen, (∃ s ∈ placed, s.parsed.path = unit.path) ∨
    (p.tree.Blocked root (split '.' unit.path) ∧ ∃ skip ∈ p.skipped, skip.origin = unit.origin)
  leaves_nodup : (placed.map (·.leaf)).Nodup
  isLeaf_iff : ∀ x, p.tree.isLeaf x = true ↔ x ∈ placed.map (·.leaf)
  found : ∀ s ∈ placed, p.tree.findByName? s.parsed.path = some s.leaf
  uses : ∀ x, p.tree.uses x = []
  missing : ∀ x, p.tree.missing x = []

theorem isPlaced_iff {t : Tree} {path : String} :
    isPlaced t path = true ↔ ∃ x, t.findByName? path = some x ∧ t.isLeaf x = true := by
  unfold isPlaced
  cases t.findByName? path <;> simp

namespace Placement.Follows

variable {p : Placement} {seen units : List ParsedInput} {placed : List Settled}
  {unit : ParsedInput} {t : Tree} {leaf x : NodeId}

theorem empty : Follows {} [] [] where
  reached := .empty
  segmented := by simp
  placed_eq := rfl
  lookup _ := rfl
  in_order := .slnil
  first := by simp
  settled_or_blocked := by simp
  leaves_nodup := .nil
  isLeaf_iff x := by
    rw [isLeaf_eq, node?_empty]
    split <;> simp [Content.kind]
  found := by simp
  uses x := by
    rw [uses_eq, node?_empty]
    split <;> rfl
  missing x := by
    rw [missing_eq, node?_empty]
    split <;> rfl

theorem segmented_concat (follows : p.Follows seen placed) (segmented : Segmented unit.path) :
    ∀ other ∈ seen ++ [unit], Segmented other.path := by
  intro other mem
  rcases List.mem_append.mp mem with old | new
  · exact follows.segmented other old
  · rw [List.mem_singleton.mp new]
    exact segmented

theorem first_concat (follows : p.Follows seen placed) (unit : ParsedInput) :
    ∀ s ∈ placed, (seen ++ [unit]).find? (fun other => other.path = s.parsed.path) =
      some s.parsed := by
  intro s listed
  rw [List.find?_append, follows.first s listed]
  rfl

theorem mem_seen (follows : p.Follows seen placed) {s : Settled} (listed : s ∈ placed) :
    s.parsed ∈ seen :=
  follows.in_order.subset (List.mem_map_of_mem listed)

theorem mem_placed (follows : p.Follows seen placed) {s : Settled} (listed : s ∈ placed) :
    ⟨s.leaf, s.parsed.unit.dependencies⟩ ∈ p.placed := by
  rw [follows.placed_eq]
  exact List.mem_map_of_mem listed

theorem isLeaf (follows : p.Follows seen placed) {s : Settled} (listed : s ∈ placed) :
    p.tree.isLeaf s.leaf = true :=
  (follows.isLeaf_iff s.leaf).mpr (List.mem_map_of_mem listed)

theorem fullName_leaf (follows : p.Follows seen placed) {s : Settled} (listed : s ∈ placed) :
    p.tree.fullName s.leaf = s.parsed.path :=
  follows.reached.fullName_eq_of_findByName? (follows.segmented _ (follows.mem_seen listed))
    (follows.found s listed)

/-- A leaf that is found by a path is that of the unit placed there. -/
theorem exists_of_findByName? (follows : p.Follows seen placed) (segmented : Segmented unit.path)
    (found : p.tree.findByName? unit.path = some x) (isLeaf : p.tree.isLeaf x = true) :
    ∃ s ∈ placed, s.parsed.path = unit.path := by
  obtain ⟨s, listed, rfl⟩ := List.mem_map.mp ((follows.isLeaf_iff x).mp isLeaf)
  refine ⟨s, listed, ?_⟩
  rw [← follows.fullName_leaf listed, follows.reached.fullName_eq_of_findByName? segmented found]

theorem duplicate (follows : p.Follows seen placed) (segmented : Segmented unit.path)
    (taken : isPlaced p.tree unit.path = true) :
    Follows { p with duplicates := p.duplicates + 1 } (seen ++ [unit]) placed := by
  obtain ⟨x, found, isLeaf⟩ := isPlaced_iff.mp taken
  refine
    { follows with
      segmented := follows.segmented_concat segmented
      in_order := follows.in_order.trans (List.sublist_append_left _ _)
      first := follows.first_concat unit
      settled_or_blocked := ?_ }
  intro other mem
  rcases List.mem_append.mp mem with old | new
  · exact follows.settled_or_blocked other old
  · rw [List.mem_singleton.mp new]
    exact .inl (follows.exists_of_findByName? segmented found isLeaf)

theorem skip (follows : p.Follows seen placed) (segmented : Segmented unit.path)
    {problem : Problem} (failed : p.tree.createLeaf root unit.path = (t, .error problem)) :
    Follows { p with tree := t, skipped := p.skipped ++ [⟨unit.origin, problem.message⟩] }
      (seen ++ [unit]) placed := by
  have tree := follows.reached.wellFormed.toContained
  have grown := extends_createLeaf p.tree root unit.path
  have leaves := fun x => isLeaf_createLeaf (t := p.tree) (p := root) (x := x) segmented
  have reached := follows.reached.createLeaf root unit.path
  simp only [failed, reduceCtorEq, or_false] at grown leaves reached
  refine
    { reached
      segmented := follows.segmented_concat segmented
      placed_eq := follows.placed_eq
      lookup := follows.lookup
      in_order := follows.in_order.trans (List.sublist_append_left _ _)
      first := follows.first_concat unit
      settled_or_blocked := ?_
      leaves_nodup := follows.leaves_nodup
      isLeaf_iff := fun x => (leaves x).trans (follows.isLeaf_iff x)
      found := fun s listed => grown.findByName? (follows.found s listed)
      uses := fun x => by rw [grown.uses, follows.uses]
      missing := fun x => by rw [grown.missing, follows.missing] }
  intro other mem
  rcases List.mem_append.mp mem with old | new
  · refine (follows.settled_or_blocked other old).imp_right ?_
    intro blocked
    obtain ⟨obstacle, skip, listed, origin⟩ := blocked
    exact ⟨grown.blocked tree tree.size_pos obstacle, skip, List.mem_append_left _ listed, origin⟩
  · rw [List.mem_singleton.mp new]
    have obstacle := blocked_of_createLeaf_eq_error tree tree.size_pos segmented failed
    exact .inr ⟨obstacle, _, List.mem_append_right _ (List.mem_singleton_self _), rfl⟩

/-- No unit of a path that is free now was there before. -/
theorem find?_eq_none (follows : p.Follows seen placed) (segmented : Segmented unit.path)
    (free : isPlaced p.tree unit.path ≠ true)
    (created : p.tree.createLeaf root unit.path = (t, .ok leaf)) :
    seen.find? (fun other => other.path = unit.path) = none := by
  have tree := follows.reached.wellFormed.toContained
  have grown := extends_createLeaf p.tree root unit.path
  rw [created] at grown
  apply List.find?_eq_none.mpr
  intro other mem same
  rw [decide_eq_true_iff] at same
  -- An earlier unit was placed, which leaves the path taken, or met an obstacle, which stays.
  rcases follows.settled_or_blocked other mem with ⟨s, listed, path⟩ | ⟨blocked, -⟩
  · have found := follows.found s listed
    rw [path, same] at found
    exact free (isPlaced_iff.mpr ⟨s.leaf, found, follows.isLeaf listed⟩)
  · rw [same] at blocked
    exact not_blocked_of_isLeaf (descend_of_createLeaf_eq_ok segmented created)
      (isLeaf_of_createLeaf_eq_ok created) (grown.blocked tree tree.size_pos blocked)

theorem lookup_concat (follows : p.Follows seen placed) (unit : ParsedInput) (leaf : NodeId)
    (name : String) :
    (if (p.byName.lookup unit.unit.name).isSome then p.byName
      else p.byName ++ [(unit.unit.name, leaf)]).lookup name =
      leafOf? (placed ++ [⟨unit, leaf⟩]) name := by
  have alone : leafOf? [⟨unit, leaf⟩] name = if unit.unit.name = name then some leaf else none := by
    by_cases same : unit.unit.name = name <;> simp [leafOf?, same]
  rw [leafOf?_append, ← follows.lookup, alone]
  split
  next shadowed =>
    by_cases same : unit.unit.name = name
    · obtain ⟨x, known⟩ := Option.isSome_iff_exists.mp shadowed
      rw [← same, known, Option.some_or]
    · rw [if_neg same, Option.or_none]
  next =>
    rw [List.lookup_append]
    by_cases same : unit.unit.name = name
    · simp [same]
    · rw [List.lookup_cons, beq_false_of_ne (Ne.symm same), if_neg same]
      rfl

theorem settle (follows : p.Follows seen placed) (segmented : Segmented unit.path)
    (free : isPlaced p.tree unit.path ≠ true)
    (created : p.tree.createLeaf root unit.path = (t, .ok leaf)) (duplicates : Nat) :
    Follows
      { p with
        tree := t
        byName := if (p.byName.lookup unit.unit.name).isSome then p.byName
          else p.byName ++ [(unit.unit.name, leaf)]
        placed := p.placed ++ [⟨leaf, unit.unit.dependencies⟩]
        duplicates }
      (seen ++ [unit]) (placed ++ [⟨unit, leaf⟩]) := by
  have tree := follows.reached.wellFormed.toContained
  have grown := extends_createLeaf p.tree root unit.path
  have leaves := fun x => isLeaf_createLeaf (t := p.tree) (p := root) (x := x) segmented
  have reached := follows.reached.createLeaf root unit.path
  simp only [created, Except.ok.injEq] at grown leaves reached
  have new : p.tree.isLeaf leaf = false := by
    apply isLeaf_eq_false_of_createLeaf_eq_ok follows.reached segmented created
    intro x found
    rw [← Bool.not_eq_true]
    exact fun isLeaf => free (isPlaced_iff.mpr ⟨x, found, isLeaf⟩)
  refine
    { reached
      segmented := follows.segmented_concat segmented
      placed_eq := by simp [follows.placed_eq]
      lookup := follows.lookup_concat unit leaf
      in_order := by
        rw [List.map_append]
        exact follows.in_order.append (List.Sublist.refl _)
      first := ?_, settled_or_blocked := ?_, leaves_nodup := ?_, isLeaf_iff := ?_, found := ?_
      uses := fun x => by rw [grown.uses, follows.uses]
      missing := fun x => by rw [grown.missing, follows.missing] }
  · intro s listed
    rcases List.mem_append.mp listed with old | last
    · exact follows.first_concat unit s old
    · rw [List.mem_singleton.mp last, List.find?_append,
        follows.find?_eq_none segmented free created]
      simp
  · intro other mem
    rcases List.mem_append.mp mem with old | last
    · rcases follows.settled_or_blocked other old with ⟨s, listed, path⟩ | ⟨blocked, skipped⟩
      · exact .inl ⟨s, List.mem_append_left _ listed, path⟩
      · exact .inr ⟨grown.blocked tree tree.size_pos blocked, skipped⟩
    · rw [List.mem_singleton.mp last]
      exact .inl ⟨⟨unit, leaf⟩, List.mem_append_right _ (List.mem_singleton_self _), rfl⟩
  · rw [List.map_append, List.map_singleton, List.nodup_append]
    refine ⟨follows.leaves_nodup, List.nodup_singleton leaf, ?_⟩
    intro a old b last same
    have isLeaf := (follows.isLeaf_iff a).mpr old
    rw [same, List.mem_singleton.mp last, new] at isLeaf
    cases isLeaf
  · intro x
    rw [leaves x, follows.isLeaf_iff, List.map_append, List.mem_append, List.map_singleton,
      List.mem_singleton, eq_comm (a := leaf)]
  · intro s listed
    rcases List.mem_append.mp listed with old | last
    · exact grown.findByName? (follows.found s old)
    · rw [List.mem_singleton.mp last, findByName?_eq segmented.ne_empty]
      exact descend_of_createLeaf_eq_ok segmented created

theorem place (follows : p.Follows seen placed) (segmented : Segmented unit.path) :
    ∃ placed', (Scan.place p unit).Follows (seen ++ [unit]) placed' := by
  unfold Scan.place
  dsimp only
  split
  next taken => exact ⟨placed, follows.duplicate segmented taken⟩
  next free =>
    split
    next failed => exact ⟨placed, follows.skip segmented failed⟩
    next created => exact ⟨_, follows.settle segmented free created _⟩

theorem placeAll (follows : p.Follows seen placed)
    (segmented : ∀ unit ∈ units, Segmented unit.path) :
    ∃ placed', (units.foldl Scan.place p).Follows (seen ++ units) placed' := by
  induction units generalizing p seen placed with
  | nil =>
    rw [List.append_nil]
    exact ⟨placed, follows⟩
  | cons unit units ih =>
    rw [List.forall_mem_cons] at segmented
    obtain ⟨placed', step⟩ := follows.place segmented.1
    rw [List.append_cons]
    exact ih step segmented.2

end Placement.Follows

end ClassCoupling.Scan
