import ClassCoupling.Proofs.Scan.Placement
import ClassCoupling.Total

/-!
# Linking by name

Every reference of a placed unit that is not ignored becomes a link to the first unit placed under
its name, or a missing name if there is none. A scan counts what its tree holds.
-/

namespace ClassCoupling.Scan

open Tree Text

/-! ## The references of one leaf -/

/-- What one leaf gained: links in the order of its references, and missing names. -/
structure Linking.Gains (l l' : Linking) (leaf : NodeId) (targets : List NodeId)
    (lost : List String) : Prop where
  shape : SameShape l.tree l'.tree
  uses : ∀ x, l'.tree.uses x = if x = leaf then l.tree.uses leaf ++ targets else l.tree.uses x
  missing : ∀ x, l'.tree.missing x =
    if x = leaf then lost.foldl (fun set name => NameSet.insert name set) (l.tree.missing leaf)
    else l.tree.missing x
  links : l'.links = l.links + targets.length
  lost : l'.missing = l.missing + lost.length

namespace Linking.Gains

variable {l l' l'' : Linking} {leaf : NodeId} {targets targets' : List NodeId}
  {lost lost' : List String}

theorem refl (l : Linking) (leaf : NodeId) : l.Gains l leaf [] [] where
  shape := .refl _
  uses x := by
    split
    next here => rw [here, List.append_nil]
    next => rfl
  missing x := by
    split
    next here => rw [here, List.foldl_nil]
    next => rfl
  links := rfl
  lost := rfl

theorem trans (first : l.Gains l' leaf targets lost) (second : l'.Gains l'' leaf targets' lost') :
    l.Gains l'' leaf (targets ++ targets') (lost ++ lost') where
  shape := first.shape.trans second.shape
  uses x := by
    rw [second.uses, first.uses, first.uses, if_pos rfl, List.append_assoc]
    split <;> rfl
  missing x := by
    rw [second.missing, first.missing, first.missing, if_pos rfl, List.foldl_append]
    split <;> rfl
  links := by
    rw [second.links, first.links, List.length_append]
    omega
  lost := by
    rw [second.lost, first.lost, List.length_append]
    omega

end Linking.Gains

/-- The leaves that names stand for. -/
def targets (byName : List (String × NodeId)) (names : List String) : List NodeId :=
  names.filterMap fun name => byName.lookup name

/-- The names that stand for no leaf. -/
def lost (byName : List (String × NodeId)) (names : List String) : List String :=
  names.filter fun name => (byName.lookup name).isNone

section Resolve

variable {l : Linking} {byName : List (String × NodeId)} {leaf : NodeId} {name : String}
  {names : List String}

theorem resolve_gains (source : l.tree.isLeaf leaf = true)
    (target : ∀ x, byName.lookup name = some x → l.tree.isLeaf x = true ∧ x ∉ l.tree.uses leaf) :
    l.Gains (resolve byName leaf l name) leaf (targets byName [name]) (lost byName [name]) := by
  unfold resolve
  split
  next x found =>
    obtain ⟨isLeaf, fresh⟩ := target x found
    rcases connect_cases source isLeaf with ⟨known, -⟩ | added
    · exact absurd known fresh
    · simp only [targets, lost, List.filterMap_cons, List.filter_cons, found, List.filterMap_nil,
        List.filter_nil]
      exact
        { shape := added.shape
          uses := added.uses
          missing := fun x => by
            rw [added.missing]
            split
            next here => rw [here]; rfl
            next => rfl
          links := rfl
          lost := rfl }
  next absent =>
    simp only [targets, lost, List.filterMap_cons, List.filter_cons, absent, List.filterMap_nil,
      List.filter_nil]
    exact
      { shape := sameShape_noteMissing leaf name
        uses := fun x => by
          rw [(sameLinks_noteMissing leaf name).uses]
          split
          next here => rw [here, List.append_nil]
          next => rfl
        missing := missing_noteMissing source name
        links := rfl
        lost := rfl }

/-- Links of several references, if no two of them mean one leaf. -/
theorem foldl_resolve_gains (source : l.tree.isLeaf leaf = true)
    (named : ∀ name x, byName.lookup name = some x → l.tree.isLeaf x = true)
    (nodup : (l.tree.uses leaf ++ targets byName names).Nodup) :
    l.Gains (names.foldl (resolve byName leaf) l) leaf (targets byName names)
      (lost byName names) := by
  induction names generalizing l with
  | nil => exact .refl l leaf
  | cons name names ih =>
    have first : targets byName (name :: names) = targets byName [name] ++ targets byName names :=
      (List.filterMap_append : ([name] ++ names).filterMap _ = _)
    have first_lost : lost byName (name :: names) = lost byName [name] ++ lost byName names :=
      List.filter_append [name] names
    rw [first, ← List.append_assoc] at nodup
    have fresh : ∀ x, byName.lookup name = some x → x ∉ l.tree.uses leaf := by
      intro x found known
      have new : x ∈ targets byName [name] := by simp [targets, found]
      exact (List.nodup_append.mp nodup.of_append_left).2.2 x known x new rfl
    have step := resolve_gains source fun x found => ⟨named name x found, fresh x found⟩
    rw [first, first_lost]
    apply step.trans
    apply ih
    · rw [step.shape.isLeaf]
      exact source
    · rw [step.shape.isLeaf]
      exact named
    · rw [step.uses, if_pos rfl]
      exact nodup

end Resolve

/-! ## The references of all leaves -/

/-- The references of a unit that count. -/
def references (filter : UnitFilter) (unit : PlacedUnit) : List String :=
  unit.dependencies.filter fun name => !filter.ignoresUnit name

/-- What all leaves of a list gained. -/
structure Linking.GainsAll (l l' : Linking) (filter : UnitFilter) (byName : List (String × NodeId))
    (units : List PlacedUnit) : Prop where
  shape : SameShape l.tree l'.tree
  uses : ∀ unit ∈ units, l'.tree.uses unit.leaf =
    l.tree.uses unit.leaf ++ targets byName (references filter unit)
  missing : ∀ unit ∈ units, l'.tree.missing unit.leaf =
    (lost byName (references filter unit)).foldl (fun set name => NameSet.insert name set)
      (l.tree.missing unit.leaf)
  other : ∀ x ∉ units.map (·.leaf),
    l'.tree.uses x = l.tree.uses x ∧ l'.tree.missing x = l.tree.missing x
  links : l'.links =
    l.links + total (units.map fun unit => (targets byName (references filter unit)).length)
  lost : l'.missing =
    l.missing + total (units.map fun unit => (Scan.lost byName (references filter unit)).length)

theorem linkUnit_gains {l : Linking} {filter : UnitFilter} {byName : List (String × NodeId)}
    {unit : PlacedUnit} (source : l.tree.isLeaf unit.leaf = true)
    (named : ∀ name x, byName.lookup name = some x → l.tree.isLeaf x = true)
    (nodup : (l.tree.uses unit.leaf ++ targets byName (references filter unit)).Nodup) :
    l.Gains (linkUnit filter byName l unit) unit.leaf (targets byName (references filter unit))
      (lost byName (references filter unit)) :=
  foldl_resolve_gains source named nodup

theorem linkAll_gains {l : Linking} {filter : UnitFilter} {byName : List (String × NodeId)}
    {units : List PlacedUnit} (leaves : (units.map (·.leaf)).Nodup)
    (placed : ∀ unit ∈ units, l.tree.isLeaf unit.leaf = true)
    (named : ∀ name x, byName.lookup name = some x → l.tree.isLeaf x = true)
    (nodup : ∀ unit ∈ units,
      (l.tree.uses unit.leaf ++ targets byName (references filter unit)).Nodup) :
    l.GainsAll (units.foldl (linkUnit filter byName) l) filter byName units := by
  induction units generalizing l with
  | nil => exact ⟨.refl _, nofun, nofun, fun _ _ => ⟨rfl, rfl⟩, rfl, rfl⟩
  | cons unit units ih =>
    obtain ⟨alone, leaves⟩ := List.nodup_cons.mp leaves
    rw [List.forall_mem_cons] at placed nodup
    have step := linkUnit_gains placed.1 named nodup.1
    have elsewhere : ∀ other ∈ units, other.leaf ≠ unit.leaf := by
      intro other listed same
      exact alone (List.mem_map.mpr ⟨other, listed, same⟩)
    have rest : (linkUnit filter byName l unit).GainsAll
        (units.foldl (linkUnit filter byName) (linkUnit filter byName l unit)) filter byName
        units := by
      apply ih leaves
      · rw [step.shape.isLeaf]
        exact placed.2
      · rw [step.shape.isLeaf]
        exact named
      · intro other listed
        rw [step.uses, if_neg (elsewhere other listed)]
        exact nodup.2 other listed
    -- Nothing more happens to the first leaf, and nothing happened to the others before.
    have kept := rest.other unit.leaf alone
    refine
      { shape := step.shape.trans rest.shape
        uses := List.forall_mem_cons.mpr ⟨?_, fun other listed => ?_⟩
        missing := List.forall_mem_cons.mpr ⟨?_, fun other listed => ?_⟩
        other := ?_, links := ?_, lost := ?_ }
    · rw [List.foldl_cons, kept.1, step.uses, if_pos rfl]
    · rw [List.foldl_cons, rest.uses other listed, step.uses, if_neg (elsewhere other listed)]
    · rw [List.foldl_cons, kept.2, step.missing, if_pos rfl]
    · rw [List.foldl_cons, rest.missing other listed, step.missing, if_neg (elsewhere other listed)]
    · intro x absent
      rw [List.map_cons, List.mem_cons, not_or] at absent
      have later := rest.other x absent.2
      rw [step.uses, step.missing, if_neg absent.1, if_neg absent.1] at later
      exact later
    · rw [List.foldl_cons, rest.links, step.links, List.map_cons, total_cons, Nat.add_assoc]
    · rw [List.foldl_cons, rest.lost, step.lost, List.map_cons, total_cons, Nat.add_assoc]

end ClassCoupling.Scan
