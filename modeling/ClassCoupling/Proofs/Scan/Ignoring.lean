import ClassCoupling.Proofs.Scan.Accounting
import ClassCoupling.Proofs.Tree.Omission

/-!
# Ignoring names from outside

Patterns that accept the name of no unit of a scan decide only which references are missed. Without
the missing names that they accept, the first tree is the second.
-/

namespace ClassCoupling.Scan

open Tree Text

/-- A request and one that ignores units by some more patterns. -/
structure Request.IgnoresMore (request other : Request) (extra : List String) : Prop where
  paths : other.paths = request.paths
  ignoredSources : other.ignoredSources = request.ignoredSources
  ignoredUnits : ∀ pattern,
    pattern ∈ other.ignoredUnits ↔ pattern ∈ request.ignoredUnits ∨ pattern ∈ extra

/-- The same for filters. -/
structure IgnoresMore (filter other : UnitFilter) (extra : List String) : Prop where
  ignoresSource : other.ignoresSource = filter.ignoresSource
  ignoresUnit : ∀ name,
    other.ignoresUnit name = true ↔ filter.ignoresUnit name = true ∨ Matched extra name

theorem Request.IgnoresMore.filters {request other : Request} {extra : List String}
    {filter filter' : UnitFilter} (more : request.IgnoresMore other extra)
    (made : UnitFilter.make request.ignoredUnits request.ignoredSources [] = .ok filter)
    (made' : UnitFilter.make other.ignoredUnits other.ignoredSources [] = .ok filter') :
    Scan.IgnoresMore filter filter' extra where
  ignoresSource := by
    funext location
    rw [UnitFilter.eq_of_make made, UnitFilter.eq_of_make made', more.ignoredSources]
    rfl
  ignoresUnit name := by
    rw [ignoresUnit_iff made, ignoresUnit_iff made']
    simp only [Matched, more.ignoredUnits, or_and_right, exists_or]

/-! ## The same units -/

section Collecting

variable {source : Source} {filter other : UnitFilter} {extra : List String} {path : String}
  {paths : List String} {start result : Collected} (more : IgnoresMore filter other extra)
include more

theorem keepsUnit_eq {unit : RawUnit}
    (outside : keepsUnit filter unit = true → ¬ Matched extra unit.name) :
    keepsUnit other unit = keepsUnit filter unit := by
  rw [Bool.eq_iff_iff]
  simp only [keepsUnit, Bool.and_eq_true, Bool.not_eq_true', ← Bool.not_eq_true,
    more.ignoresSource, more.ignoresUnit] at outside ⊢
  tauto

theorem collectPath_eq (collected : (collectPath source filter path start).2 = .ok result)
    (outside : ∀ unit ∈ result.units, ¬ Matched extra unit.unit.name) :
    collectPath source other path start = collectPath source filter path start := by
  unfold collectPath at collected ⊢
  rw [more.ignoresSource]
  split
  next => rfl
  next wanted =>
    rw [if_neg wanted] at collected
    split
    next supported =>
      rw [if_pos supported] at collected
      cases load : source.load path with
      | error => rfl
      | ok loaded =>
        simp only [load, Except.map, Except.ok.injEq] at collected ⊢
        have kept : loaded.units.filter (keepsUnit other) =
            loaded.units.filter (keepsUnit filter) := by
          apply List.filter_congr
          intro unit listed
          apply keepsUnit_eq more
          intro keeps
          refine outside ⟨uniqueName start.inputs loaded.name, unit⟩ ?_
          rw [← collected]
          refine List.mem_append_right _ (List.mem_map_of_mem ?_)
          exact List.mem_filter.mpr ⟨listed, keeps⟩
        simp only [Collected.add, kept]
    next => rfl

theorem collectFrom_eq {count position : Nat}
    (collected : (collectFrom source filter count position paths start).2 = .ok result)
    (outside : ∀ unit ∈ result.units, ¬ Matched extra unit.unit.name) :
    collectFrom source other count position paths start =
      collectFrom source filter count position paths start := by
  induction paths generalizing position start with
  | nil => rfl
  | cons path paths ih =>
    unfold collectFrom at collected ⊢
    rcases taken : collectPath source filter path start with ⟨notices, failure | middle⟩
    · rw [taken] at collected
      cases collected
    · rw [taken] at collected
      obtain ⟨loads, -, units, -⟩ := collectFrom_eq_ok collected
      have earlier : ∀ unit ∈ middle.units, ¬ Matched extra unit.unit.name := by
        intro unit listed
        apply outside
        rw [units]
        exact List.mem_append_left _ listed
      rw [collectPath_eq more (congrArg Prod.snd taken) earlier, taken]
      dsimp only
      rw [ih collected]

end Collecting

/-! ## The same links -/

/-- Two ways of linking one project, the second without the names that are dropped. -/
structure Linking.Omits (dropped : String → Prop) [DecidablePred dropped] (l l' : Linking) :
    Prop where
  tree : l'.tree = l.tree.omitting dropped
  links : l'.links = l.links
  missing : l'.missing ≤ l.missing

section Linking

variable {dropped : String → Prop} [DecidablePred dropped] {l l' : Linking}
  {byName : List (String × NodeId)} {leaf : NodeId} {name : String}

theorem Linking.Omits.resolve (omits : l.Omits dropped l') (kept : ¬ dropped name)
    (increasing : (l.tree.missing leaf).Pairwise (· < ·)) :
    (resolve byName leaf l name).Omits dropped (resolve byName leaf l' name) := by
  unfold Scan.resolve
  split
  next target found =>
    refine ⟨?_, congrArg (· + 1) omits.links, omits.missing⟩
    rw [omits.tree, omitting_connect]
  next absent =>
    refine ⟨?_, omits.links, Nat.succ_le_succ omits.missing⟩
    rw [omits.tree, omitting_noteMissing kept increasing]

theorem Linking.Omits.resolve_dropped (omits : l.Omits dropped l') (omitted : dropped name)
    (absent : byName.lookup name = none) : (Scan.resolve byName leaf l name).Omits dropped l' := by
  unfold Scan.resolve
  rw [absent]
  refine ⟨?_, omits.links, Nat.le_succ_of_le omits.missing⟩
  rw [omits.tree, omitting_noteMissing_of_dropped omitted]

variable {filter other : UnitFilter} {extra : List String} {t : Tree}
  (more : IgnoresMore filter other extra) (named : ∀ entry ∈ byName, t.isLeaf entry.2 = true)
  (outside : ∀ name, Matched extra name → byName.lookup name = none)
include more named outside

theorem Linking.Omits.linkUnit {l l' : Linking} (omits : l.Omits (Matched extra) l')
    (sound : l.Sound t) {unit : PlacedUnit} (isLeaf : t.isLeaf unit.leaf = true) :
    (linkUnit filter byName l unit).Omits (Matched extra) (linkUnit other byName l' unit) := by
  unfold Scan.linkUnit
  induction unit.dependencies generalizing l l' with
  | nil => exact omits
  | cons name names ih =>
    have increasing := sound.1.missing_increasing unit.leaf
    have ignores := more.ignoresUnit name
    have next_sound := sound.resolve named isLeaf name
    by_cases ignored : filter.ignoresUnit name = true
    · have both : other.ignoresUnit name = true := ignores.mpr (.inl ignored)
      rw [List.filter_cons_of_neg (by simp [ignored]), List.filter_cons_of_neg (by simp [both])]
      exact ih omits sound
    · rw [List.filter_cons_of_pos (by simp [ignored]), List.foldl_cons]
      by_cases matched : Matched extra name
      · have later : other.ignoresUnit name = true := ignores.mpr (.inr matched)
        rw [List.filter_cons_of_neg (by simp [later])]
        exact ih (omits.resolve_dropped matched (outside name matched)) next_sound
      · have neither : ¬ other.ignoresUnit name = true := by
          rw [ignores]
          exact not_or_intro ignored matched
        rw [List.filter_cons_of_pos (by simp [neither]), List.foldl_cons]
        exact ih (omits.resolve matched increasing) next_sound

theorem Linking.Omits.linkAll {l l' : Linking} (omits : l.Omits (Matched extra) l')
    (sound : l.Sound t) {units : List PlacedUnit}
    (placed : ∀ unit ∈ units, t.isLeaf unit.leaf = true) :
    (units.foldl (Scan.linkUnit filter byName) l).Omits (Matched extra)
      (units.foldl (Scan.linkUnit other byName) l') := by
  induction units generalizing l l' with
  | nil => exact omits
  | cons unit units ih =>
    rw [List.forall_mem_cons] at placed
    exact ih (omits.linkUnit more named outside sound placed.1)
      (sound.linkUnit named filter placed.1) placed.2

end Linking

/-! ## The same project -/

theorem missing_place (p : Placement) (unit : ParsedInput) :
    (place p unit).tree.missing = p.tree.missing := by
  have grown := extends_createLeaf p.tree root unit.path
  rcases place_spec p unit with ⟨-, -, step⟩ | ⟨-, t, problem, failed, -, step⟩ |
    ⟨-, t, leaf, created, -, step⟩
  · rw [step]
  · rw [failed] at grown
    rw [step]
    exact grown.missing
  · rw [created] at grown
    rw [step]
    exact grown.missing

/-- Nothing is missed before units are linked. -/
theorem missing_placeAll (maxMajor : Nat) (collected : Collected) (id : NodeId) :
    (placeAll maxMajor collected).tree.missing id = [] := by
  have all : ∀ units p, ((units : List ParsedInput).foldl place p).tree.missing =
      p.tree.missing := by
    intro units
    induction units with
    | nil => exact fun _ => rfl
    | cons unit units ih => exact fun p => (ih _).trans (missing_place p unit)
  rw [placeAll, all, missing_eq, node?_empty]
  split <;> rfl

theorem mem_collected_of_lookup {maxMajor : Nat} {collected : Collected} {name : String}
    (found : ((placeAll maxMajor collected).byName.lookup name).isSome = true) :
    ∃ unit ∈ collected.units, unit.unit.name = name := by
  have tallies := tallies_placeAll maxMajor collected
  obtain ⟨r, recorded, rfl⟩ := List.mem_map.mp ((tallies.isSome_lookup_iff name).mp found)
  refine ⟨r.unit, ?_, rfl⟩
  rw [← map_unit_ledger maxMajor {} collected.units]
  exact List.mem_map_of_mem (List.mem_filter.mp recorded).1

/-- A project and the one without certain missing names. -/
structure Project.Omits (project : Project) (extra : List String) (other : Project) : Prop where
  eq_omitting : other =
    { project with tree := project.tree.omitting (Matched extra), missing := other.missing }
  missing_le : other.missing ≤ project.missing

theorem Project.Omits.tree {project other : Project} {extra : List String}
    (omits : project.Omits extra other) :
    other.tree = project.tree.omitting (Matched extra) := by
  rw [omits.eq_omitting]

theorem omits_assemble {filter other : UnitFilter} {extra : List String}
    (more : IgnoresMore filter other extra) (maxMajor : Nat) {collected : Collected}
    (outside : ∀ unit ∈ collected.units, ¬ Matched extra unit.unit.name) :
    (assemble maxMajor filter collected).2.Omits extra (assemble maxMajor other collected).2 := by
  have sound := sound_placeAll maxMajor collected
  have absent : ∀ name, Matched extra name →
      (placeAll maxMajor collected).byName.lookup name = none := by
    intro name matched
    rw [← Option.not_isSome_iff_eq_none]
    intro found
    obtain ⟨unit, listed, rfl⟩ := mem_collected_of_lookup found
    exact outside unit listed matched
  have start : Linking.Omits (Matched extra) { tree := (placeAll maxMajor collected).tree }
      { tree := (placeAll maxMajor collected).tree } :=
    ⟨(omitting_eq_self (missing_placeAll maxMajor collected)).symm, rfl, Nat.le_refl _⟩
  have linked := start.linkAll more sound.named absent ⟨sound.reached, .refl _⟩ sound.placed
  refine ⟨?_, linked.missing⟩
  simp only [assemble, Project.mk.injEq, true_and, and_true]
  exact ⟨linked.tree, linked.links⟩

theorem omits_of_run {maxMajor : Nat} {source : Source} {request other : Request}
    {extra : List String} {project project' : Project} (more : request.IgnoresMore other extra)
    (outside : ∀ unit ∈ collectedUnits source request, ¬ Matched extra unit.unit.name)
    (scanned : (run maxMajor source request).2 = .ok project)
    (scanned' : (run maxMajor source other).2 = .ok project') : project.Omits extra project' := by
  obtain ⟨filter, collected, made, gathered, rfl⟩ := eq_of_run scanned
  obtain ⟨filter', collected', made', gathered', rfl⟩ := eq_of_run scanned'
  have ignores := more.filters made made'
  have units : collectedUnits source request = collected.units := by
    simp only [collectedUnits, made, gathered]
  rw [units] at outside
  have same := collectFrom_eq ignores gathered outside
  rw [more.paths] at gathered'
  change (collectFrom source filter' _ 1 request.paths {}).2 = .ok collected' at gathered'
  rw [same] at gathered'
  cases Except.ok.inj (gathered.symm.trans gathered')
  exact omits_assemble ignores maxMajor outside

end ClassCoupling.Scan
