import ClassCoupling.Proofs.ClassFile.Unit
import ClassCoupling.Proofs.Pattern.Filter
import ClassCoupling.Proofs.Scan.Linking
import Mathlib.Data.List.Nodup

/-!
# The project that a scan gives

A scan takes its units in the order of the request. Each is placed at a leaf of its own, and refers
to the first unit placed under a name, whichever input that came from. Ignored names are neither
placed nor linked nor missed, and the counts of a project are those of its tree.
-/

namespace ClassCoupling.Scan

open Tree Text

/-! ## Ignored names -/

/-- Some pattern accepts the name. -/
def Matched (patterns : List String) (name : String) : Prop :=
  ∃ pattern ∈ patterns, (Pattern.compile pattern).accepts name = true

instance (patterns : List String) : DecidablePred (Matched patterns) := fun name =>
  inferInstanceAs (Decidable (∃ pattern ∈ patterns, (Pattern.compile pattern).accepts name = true))

theorem ignoresUnit_iff {ignoredUnits ignoredSources focus : List String} {filter : UnitFilter}
    (made : UnitFilter.make ignoredUnits ignoredSources focus = .ok filter) (name : String) :
    filter.ignoresUnit name = true ↔ Matched ignoredUnits name := by
  rw [UnitFilter.eq_of_make made, UnitFilter.ignoresUnit]
  simp [Matched]

/-! ## Collected and parsed units -/

/-- The units of loaded inputs that are kept, each with the name its input goes by. -/
def keptUnits (filter : UnitFilter) (loads : List (LoadedInput × String)) : List CollectedUnit :=
  loads.flatMap fun load => (load.1.units.filter (keepsUnit filter)).map fun unit => ⟨load.2, unit⟩

/-- Inputs loaded in the order of their paths. -/
def Loaded (source : Source) (filter : UnitFilter) (paths : List String)
    (loads : List (LoadedInput × String)) : Prop :=
  List.Forall₂ (fun path load => source.load path = .ok load.1)
    (paths.filter fun path => !filter.ignoresSource path && source.supports path) loads

section Collect

variable {source : Source} {filter : UnitFilter} {path : String} {paths : List String}
  {start result : Collected}

theorem loaded_skipped (skipped : ¬ (!filter.ignoresSource path && source.supports path) = true) :
    Loaded source filter [path] [] := by
  have none : [path].filter (fun path => !filter.ignoresSource path && source.supports path) = [] :=
    List.filter_cons_of_neg skipped
  rw [Loaded, none]
  exact .nil

theorem loaded_singleton (wanted : (!filter.ignoresSource path && source.supports path) = true)
    {input : LoadedInput} (loaded : source.load path = .ok input) (name : String) :
    Loaded source filter [path] [(input, name)] := by
  have alone : [path].filter (fun path => !filter.ignoresSource path && source.supports path) =
      [path] := List.filter_cons_of_pos wanted
  rw [Loaded, alone]
  exact .cons loaded .nil

theorem Loaded.append {more : List String} {loads loads' : List (LoadedInput × String)}
    (first : Loaded source filter paths loads) (second : Loaded source filter more loads') :
    Loaded source filter (paths ++ more) (loads ++ loads') := by
  rw [Loaded, List.filter_append]
  exact List.rel_append first second

/-- A path that is taken adds what was loaded from it, or no unit and no input. -/
theorem collectPath_cases (collected : (collectPath source filter path start).2 = .ok result) :
    (¬ (!filter.ignoresSource path && source.supports path) = true ∧
      result.units = start.units ∧ result.inputs = start.inputs) ∨
    ((!filter.ignoresSource path && source.supports path) = true ∧
      ∃ input, source.load path = .ok input ∧ result = start.add filter input) := by
  unfold collectPath at collected
  split at collected
  next ignored =>
    cases collected
    exact .inl ⟨by simp [ignored], rfl, rfl⟩
  next wanted =>
    split at collected
    next supported =>
      cases load : source.load path with
      | error => simp [load, Except.map] at collected
      | ok input =>
        simp only [load, Except.map, Except.ok.injEq] at collected
        exact .inr ⟨by simp [wanted, supported], input, rfl, collected.symm⟩
    next unsupported =>
      split at collected
      next =>
        cases collected
        exact .inl ⟨by simp [unsupported], rfl, rfl⟩
      next => cases collected

theorem collectPath_eq_ok (collected : (collectPath source filter path start).2 = .ok result) :
    ∃ loads, Loaded source filter [path] loads ∧
      result.units = start.units ++ keptUnits filter loads ∧
      result.inputs = start.inputs ++ loads.map (·.2) := by
  rcases collectPath_cases collected with ⟨skipped, units, inputs⟩ | ⟨wanted, input, load, rfl⟩
  · refine ⟨[], loaded_skipped skipped, ?_, ?_⟩
    · rw [units]
      exact (List.append_nil _).symm
    · rw [inputs]
      exact (List.append_nil _).symm
  · refine ⟨[(input, uniqueName start.inputs input.name)], loaded_singleton wanted load _, ?_, ?_⟩
    · simp [Collected.add, keptUnits]
    · simp [Collected.add]

theorem collectFrom_eq_ok {count position : Nat}
    (collected : (collectFrom source filter count position paths start).2 = .ok result) :
    ∃ loads, Loaded source filter paths loads ∧
      result.units = start.units ++ keptUnits filter loads ∧
      result.inputs = start.inputs ++ loads.map (·.2) := by
  induction paths generalizing position start with
  | nil =>
    cases collected
    exact ⟨[], .nil, (List.append_nil _).symm, (List.append_nil _).symm⟩
  | cons path paths ih =>
    unfold collectFrom at collected
    dsimp only at collected
    split at collected
    next notices middle taken =>
      obtain ⟨first, loaded, units, inputs⟩ := collectPath_eq_ok (congrArg Prod.snd taken)
      obtain ⟨more, loaded', units', inputs'⟩ := ih collected
      refine ⟨first ++ more, loaded.append loaded', ?_, ?_⟩
      · rw [units', units, List.append_assoc, keptUnits, keptUnits, ← List.flatMap_append]
        rfl
      · rw [inputs', inputs, List.append_assoc, List.map_append]
    next => cases collected

end Collect

theorem mem_parseAll {maxMajor : Nat} {units : List CollectedUnit} {parsed : ParsedInput} :
    parsed ∈ (parseAll maxMajor units).1 ↔
      ∃ unit ∈ units, parseUnit maxMajor unit = .ok parsed := by
  simp only [parseAll, List.filterMap_map, List.mem_filterMap]
  constructor
  · intro some_kept
    obtain ⟨unit, listed, kept⟩ := some_kept
    refine ⟨unit, listed, ?_⟩
    cases result : parseUnit maxMajor unit with
    | error => simp [result] at kept
    | ok other => simpa [result] using kept
  · intro some_parsed
    obtain ⟨unit, listed, result⟩ := some_parsed
    exact ⟨unit, listed, by simp [result]⟩

theorem parseUnit_eq_ok {maxMajor : Nat} {unit : CollectedUnit} {parsed : ParsedInput}
    (accepted : parseUnit maxMajor unit = .ok parsed) :
    parsed.unit.name = unit.unit.name ∧ parsed.unit.dependencies.Nodup := by
  unfold parseUnit at accepted
  split at accepted
  next result =>
    obtain ⟨size, pool, -, rfl⟩ := ClassFile.parse_eq_ok_iff.mp result
    cases accepted
    exact ⟨rfl, NameSet.nodup_ofList _⟩
  next => cases accepted

/-- The units of a scan as they were collected, before any of them is parsed. -/
def collectedUnits (source : Source) (request : Request) : List CollectedUnit :=
  match UnitFilter.make request.ignoredUnits request.ignoredSources [] with
  | .error _ => []
  | .ok filter =>
    match (collect source filter request.paths).2 with
    | .error _ => []
    | .ok collected => collected.units

/-- The units of a scan, in the order in which they are placed. -/
def scannedUnits (maxMajor : Nat) (source : Source) (request : Request) : List ParsedInput :=
  match UnitFilter.make request.ignoredUnits request.ignoredSources [] with
  | .error _ => []
  | .ok filter =>
    match (collect source filter request.paths).2 with
    | .error _ => []
    | .ok collected => (parseAll maxMajor collected.units).1

/-- The units come input by input in the order of the request, and those of an input in the order
in which it has them. -/
def InRequestOrder (maxMajor : Nat) (source : Source) (request : Request) (inputs : List String)
    (units : List ParsedInput) : Prop :=
  ∃ filter loads, UnitFilter.make request.ignoredUnits request.ignoredSources [] = .ok filter ∧
    Loaded source filter request.paths loads ∧ inputs = loads.map (·.2) ∧
    units = (parseAll maxMajor (keptUnits filter loads)).1

theorem eq_of_run {maxMajor : Nat} {source : Source} {request : Request} {project : Project}
    (scanned : (run maxMajor source request).2 = .ok project) : ∃ filter collected,
      UnitFilter.make request.ignoredUnits request.ignoredSources [] = .ok filter ∧
      (collect source filter request.paths).2 = .ok collected ∧
      project = (assemble maxMajor filter collected).2 := by
  unfold run at scanned
  split at scanned
  next => cases scanned
  next filter made =>
    split at scanned
    next => cases scanned
    next notices collected gathered =>
      cases scanned
      exact ⟨filter, collected, made, by rw [gathered], rfl⟩

/-! ## Counting -/

section Counting

variable {t : Tree} {leaves : List NodeId}

theorem total_perm {ns ms : List Nat} (same : ns.Perm ms) : total ns = total ms := by
  induction same with
  | nil => rfl
  | cons n _ ih => rw [total_cons, total_cons, ih]
  | swap n m ns => simp only [total_cons, Nat.add_left_comm]
  | trans _ _ first second => exact first.trans second

theorem leaves_perm (nodup : leaves.Nodup) (isLeaf_iff : ∀ x, t.isLeaf x = true ↔ x ∈ leaves) :
    ((List.range t.size).filter t.isLeaf).Perm leaves := by
  apply (List.perm_ext_iff_of_nodup (List.nodup_range.filter _) nodup).mpr
  intro x
  rw [List.mem_filter, List.mem_range, isLeaf_iff]
  exact ⟨And.right, fun listed => ⟨lt_of_isLeaf ((isLeaf_iff x).mpr listed), listed⟩⟩

theorem total_filter {f : NodeId → Nat} (keep : NodeId → Bool) (xs : List NodeId)
    (zero : ∀ x, keep x ≠ true → f x = 0) : total ((xs.filter keep).map f) = total (xs.map f) := by
  induction xs with
  | nil => rfl
  | cons x xs ih =>
    by_cases kept : keep x = true
    · rw [List.filter_cons_of_pos kept, List.map_cons, List.map_cons, total_cons, total_cons, ih]
    · rw [List.filter_cons_of_neg kept, List.map_cons, total_cons, zero x kept, Nat.zero_add, ih]

/-- What only leaves have is counted over the leaves. -/
theorem total_range (nodup : leaves.Nodup) (isLeaf_iff : ∀ x, t.isLeaf x = true ↔ x ∈ leaves)
    {f : NodeId → Nat} (zero : ∀ x ∉ leaves, f x = 0) :
    total ((List.range t.size).map f) = total (leaves.map f) := by
  rw [← total_filter t.isLeaf (List.range t.size)]
  · exact total_perm ((leaves_perm nodup isLeaf_iff).map f)
  · intro x inner
    exact zero x fun listed => inner ((isLeaf_iff x).mpr listed)

end Counting

/-! ## What a project holds -/

/-- A project whose units are placed and linked by name, and counted. -/
structure LinkedByName (ignored : List String) (units : List ParsedInput) (placed : List Settled)
    (project : Project) : Prop where
  in_order : (placed.map (·.parsed)).Sublist units
  first : ∀ s ∈ placed, units.find? (fun unit => unit.path = s.parsed.path) = some s.parsed
  settled_or_blocked : ∀ unit ∈ units, (∃ s ∈ placed, s.parsed.path = unit.path) ∨
    (project.tree.Blocked root (split '.' unit.path) ∧
      ∃ skip ∈ project.skippedUnits, skip.origin = unit.origin)
  leaves_nodup : (placed.map (·.leaf)).Nodup
  isLeaf_iff : ∀ x, project.tree.isLeaf x = true ↔ x ∈ placed.map (·.leaf)
  found : ∀ s ∈ placed, project.tree.findByName? s.parsed.path = some s.leaf
  not_matched : ∀ s ∈ placed, ¬ Matched ignored s.parsed.unit.name
  uses_iff : ∀ s ∈ placed, ∀ x, x ∈ project.tree.uses s.leaf ↔
    ∃ name ∈ s.parsed.unit.dependencies, ¬ Matched ignored name ∧ leafOf? placed name = some x
  missing_iff : ∀ s ∈ placed, ∀ name, name ∈ project.tree.missing s.leaf ↔
    name ∈ s.parsed.unit.dependencies ∧ ¬ Matched ignored name ∧
      ∀ other ∈ placed, other.parsed.unit.name ≠ name
  untraced : ∀ name, Matched ignored name →
    leafOf? placed name = none ∧ ∀ s ∈ placed, name ∉ project.tree.missing s.leaf
  nodup : ∀ s ∈ placed, (project.tree.uses s.leaf).Nodup ∧ (project.tree.missing s.leaf).Nodup
  parsed : project.parsed = ((List.range project.tree.size).filter project.tree.isLeaf).length
  links : project.links =
    total ((List.range project.tree.size).map fun x => (project.tree.uses x).length)
  missing : project.missing =
    total ((List.range project.tree.size).map fun x => (project.tree.missing x).length)
  displayName : ∀ s ∈ placed, ':' ∈ s.parsed.input.toList → '.' ∉ s.parsed.input.toList →
    project.tree.displayName s.leaf = s.parsed.unit.name

section Follows

variable {p : Placement} {units : List ParsedInput} {placed : List Settled} {name name' : String}
  {x : NodeId}

theorem leafOf?_injective (nodup : (placed.map (·.leaf)).Nodup)
    (first : leafOf? placed name = some x) (second : leafOf? placed name' = some x) :
    name = name' := by
  obtain ⟨s, listed, rfl, here⟩ := exists_of_leafOf?_eq_some first
  obtain ⟨s', listed', rfl, there⟩ := exists_of_leafOf?_eq_some second
  rw [List.inj_on_of_nodup_map nodup listed listed' (here.trans there.symm)]

theorem Placement.Follows.targets_nodup (follows : p.Follows units placed) {names : List String}
    (nodup : names.Nodup) : (targets p.byName names).Nodup := by
  apply nodup.filterMap
  intro name name' x first second
  rw [follows.lookup] at first second
  exact leafOf?_injective follows.leaves_nodup first second

theorem Placement.Follows.linkAll (follows : p.Follows units placed) (filter : UnitFilter)
    (nodup : ∀ s ∈ placed, s.parsed.unit.dependencies.Nodup) :
    Linking.GainsAll { tree := p.tree }
      (p.placed.foldl (linkUnit filter p.byName) { tree := p.tree }) filter p.byName p.placed := by
  apply linkAll_gains
  · rw [follows.placed_eq, List.map_map]
    exact follows.leaves_nodup
  · rw [follows.placed_eq]
    intro unit listed
    obtain ⟨s, settled, rfl⟩ := List.mem_map.mp listed
    exact follows.isLeaf settled
  · intro name x found
    rw [follows.lookup] at found
    obtain ⟨s, settled, -, rfl⟩ := exists_of_leafOf?_eq_some found
    exact follows.isLeaf settled
  · rw [follows.placed_eq]
    intro unit listed
    obtain ⟨s, settled, rfl⟩ := List.mem_map.mp listed
    rw [follows.uses, List.nil_append]
    exact follows.targets_nodup ((nodup s settled).filter _)

end Follows

section Gained

variable {p : Placement} {units : List ParsedInput} {placed : List Settled} {l : Linking}
  {filter : UnitFilter} {s : Settled} {x : NodeId} {name : String}
  (follows : p.Follows units placed)
  (gains : Linking.GainsAll { tree := p.tree } l filter p.byName p.placed)
include follows gains

theorem uses_leaf (listed : s ∈ placed) : l.tree.uses s.leaf =
    targets p.byName (references filter ⟨s.leaf, s.parsed.unit.dependencies⟩) := by
  rw [gains.uses _ (follows.mem_placed listed), follows.uses, List.nil_append]

theorem missing_leaf (listed : s ∈ placed) : l.tree.missing s.leaf =
    NameSet.ofList (lost p.byName (references filter ⟨s.leaf, s.parsed.unit.dependencies⟩)) := by
  rw [gains.missing _ (follows.mem_placed listed), follows.missing]
  rfl

theorem mem_uses_leaf (listed : s ∈ placed) : x ∈ l.tree.uses s.leaf ↔
    ∃ name ∈ s.parsed.unit.dependencies, filter.ignoresUnit name ≠ true ∧
      leafOf? placed name = some x := by
  rw [uses_leaf follows gains listed]
  simp [targets, references, follows.lookup, and_assoc]

theorem mem_missing_leaf (listed : s ∈ placed) : name ∈ l.tree.missing s.leaf ↔
    name ∈ s.parsed.unit.dependencies ∧ filter.ignoresUnit name ≠ true ∧
      ∀ other ∈ placed, other.parsed.unit.name ≠ name := by
  rw [missing_leaf follows gains listed, NameSet.mem_ofList, ← leafOf?_eq_none_iff]
  simp [lost, references, follows.lookup, and_comm]

theorem missing_leaf_nodup (listed : s ∈ placed) : (l.tree.missing s.leaf).Nodup := by
  rw [missing_leaf follows gains listed]
  exact NameSet.nodup_ofList _

theorem isLeaf_gained (x : NodeId) : l.tree.isLeaf x = true ↔ x ∈ placed.map (·.leaf) := by
  rw [gains.shape.isLeaf]
  exact follows.isLeaf_iff x

theorem other_gained (absent : x ∉ placed.map (·.leaf)) :
    l.tree.uses x = [] ∧ l.tree.missing x = [] := by
  have outside : x ∉ p.placed.map (·.leaf) := by
    rw [follows.placed_eq, List.map_map]
    exact absent
  have same := gains.other x outside
  rw [follows.uses, follows.missing] at same
  exact same

theorem parsed_gained :
    p.placed.length = ((List.range l.tree.size).filter l.tree.isLeaf).length := by
  rw [(leaves_perm follows.leaves_nodup (isLeaf_gained follows gains)).length_eq,
    follows.placed_eq, List.length_map, List.length_map]

/-- The links counted are those that the leaves have. -/
theorem links_gained :
    l.links = total ((List.range l.tree.size).map fun x => (l.tree.uses x).length) := by
  rw [total_range follows.leaves_nodup (isLeaf_gained follows gains), gains.links, Nat.zero_add,
    follows.placed_eq, List.map_map, List.map_map]
  · apply congrArg total
    apply List.map_congr_left
    intro s listed
    rw [Function.comp_apply, Function.comp_apply, uses_leaf follows gains listed]
  · intro x absent
    rw [(other_gained follows gains absent).1, List.length_nil]

/-- The missing references counted are the missing names that the leaves have. -/
theorem missing_gained (nodup : ∀ s ∈ placed, s.parsed.unit.dependencies.Nodup) :
    l.missing = total ((List.range l.tree.size).map fun x => (l.tree.missing x).length) := by
  rw [total_range follows.leaves_nodup (isLeaf_gained follows gains), gains.lost, Nat.zero_add,
    follows.placed_eq, List.map_map, List.map_map]
  · apply congrArg total
    apply List.map_congr_left
    intro s listed
    have once : (lost p.byName
        (references filter ⟨s.leaf, s.parsed.unit.dependencies⟩)).Nodup :=
      ((nodup s listed).filter _).filter _
    rw [Function.comp_apply, Function.comp_apply, missing_leaf follows gains listed,
      NameSet.length_ofList once]
  · intro x absent
    rw [(other_gained follows gains absent).2, List.length_nil]

end Gained

theorem exists_linkedByName_assemble {maxMajor : Nat} {filter : UnitFilter} {collected : Collected}
    {ignored : List String}
    (ignores : ∀ name, filter.ignoresUnit name = true ↔ Matched ignored name)
    (kept : ∀ unit ∈ (parseAll maxMajor collected.units).1, ¬ Matched ignored unit.unit.name)
    (nodup : ∀ unit ∈ (parseAll maxMajor collected.units).1, unit.unit.dependencies.Nodup)
    (segmented : ∀ unit ∈ (parseAll maxMajor collected.units).1, Segmented unit.path) :
    ∃ placed, LinkedByName ignored (parseAll maxMajor collected.units).1 placed
      (assemble maxMajor filter collected).2 := by
  obtain ⟨placed, follows⟩ := Placement.Follows.empty.placeAll segmented
  rw [List.nil_append] at follows
  have nodup_placed : ∀ s ∈ placed, s.parsed.unit.dependencies.Nodup :=
    fun s listed => nodup _ (follows.mem_seen listed)
  have kept_placed : ∀ s ∈ placed, ¬ Matched ignored s.parsed.unit.name :=
    fun s listed => kept _ (follows.mem_seen listed)
  have gains := follows.linkAll filter nodup_placed
  have reached := reachable_assemble maxMajor filter collected
  have found : ∀ s ∈ placed,
      (assemble maxMajor filter collected).2.tree.findByName? s.parsed.path = some s.leaf := by
    intro s listed
    rw [← follows.found s listed, ← gains.shape.findByName?]
    rfl
  refine ⟨placed,
    { in_order := follows.in_order
      first := follows.first
      settled_or_blocked := ?_
      leaves_nodup := follows.leaves_nodup
      isLeaf_iff := isLeaf_gained follows gains
      found
      not_matched := kept_placed
      uses_iff := ?_, missing_iff := ?_, untraced := ?_, nodup := ?_
      parsed := parsed_gained follows gains
      links := links_gained follows gains
      missing := missing_gained follows gains nodup_placed
      displayName := ?_ }⟩
  · intro unit listed
    refine (follows.settled_or_blocked unit listed).imp_right ?_
    intro blocked
    obtain ⟨obstacle, skip, skipped, origin⟩ := blocked
    rw [← gains.shape.blocked] at obstacle
    exact ⟨obstacle, skip, List.mem_append_right _ skipped, origin⟩
  · intro s listed x
    simp only [← ignores]
    exact mem_uses_leaf follows gains listed
  · intro s listed name
    rw [← ignores]
    exact mem_missing_leaf follows gains listed
  · intro name matched
    refine ⟨leafOf?_eq_none_iff.mpr ?_, ?_⟩
    · intro s listed same
      exact kept_placed s listed (same ▸ matched)
    · intro s listed missing
      exact ((mem_missing_leaf follows gains listed).mp missing).2.1 ((ignores name).mpr matched)
  · intro s listed
    exact ⟨reached.wellFormed.uses_nodup s.leaf, missing_leaf_nodup follows gains listed⟩
  · intro s listed colon undotted
    have full := reached.fullName_eq_of_findByName?
      (follows.segmented _ (follows.mem_seen listed)) (found s listed)
    exact displayName_eq full colon undotted

/-- The first input wins: a name means the first unit placed under it in the order of the request,
and the counts of the project are those of its tree. -/
theorem run_isLinkedByName {maxMajor : Nat} {source : Source} {request : Request}
    {project : Project} (scanned : (run maxMajor source request).2 = .ok project)
    (segmented : ∀ unit ∈ scannedUnits maxMajor source request,
      Segmented unit.input ∧ Segmented unit.unit.name) :
    InRequestOrder maxMajor source request project.inputs
      (scannedUnits maxMajor source request) ∧
    ∃ placed, LinkedByName request.ignoredUnits (scannedUnits maxMajor source request) placed
      project := by
  obtain ⟨filter, collected, made, gathered, rfl⟩ := eq_of_run scanned
  have units : scannedUnits maxMajor source request = (parseAll maxMajor collected.units).1 := by
    simp only [scannedUnits, made, gathered]
  obtain ⟨loads, loaded, kept, inputs⟩ := collectFrom_eq_ok gathered
  rw [List.nil_append] at kept inputs
  have ignores := ignoresUnit_iff made
  rw [units] at segmented ⊢
  refine ⟨⟨filter, loads, made, loaded, inputs, by rw [kept]⟩,
    exists_linkedByName_assemble ignores ?_ ?_ ?_⟩
  · intro unit listed
    obtain ⟨origin, mem, accepted⟩ := mem_parseAll.mp listed
    rw [(parseUnit_eq_ok accepted).1, ← ignores]
    rw [kept] at mem
    obtain ⟨load, -, inside⟩ := List.mem_flatMap.mp mem
    obtain ⟨raw, chosen, rfl⟩ := List.mem_map.mp inside
    have keeps := (List.mem_filter.mp chosen).2
    simp only [keepsUnit, Bool.and_eq_true, Bool.not_eq_true'] at keeps
    simp [keeps.2]
  · intro unit listed
    obtain ⟨origin, -, accepted⟩ := mem_parseAll.mp listed
    exact (parseUnit_eq_ok accepted).2
  · intro unit listed
    exact (segmented unit listed).1.append (segmented unit listed).2

/-- Two inputs that share a name. The first has one of its units twice, and one that is named like
the container of the others. -/
def overlapping : Source where
  supports _ := true
  pathExists _ := true
  load path := .ok ⟨"dir:" ++ path,
    if path = "p" then [
      ⟨"A", "a.A", ClassFile.unitBytes "a/A" ["a/B", "java/lang/X", "x/Gone"]⟩,
      ⟨"B", "a.B", ClassFile.unitBytes "a/B" []⟩,
      ⟨"copy", "a.A", ClassFile.unitBytes "a/A" ["a/C"]⟩,
      ⟨"a", "a", ClassFile.unitBytes "a" ["a/B"]⟩]
    else [
      ⟨"B", "a.B", ClassFile.unitBytes "a/B" ["a/A"]⟩,
      ⟨"C", "a.C", ClassFile.unitBytes "a/C" ["a/B"]⟩]⟩

def overlappingProject : Project where
  tree := [.createLeaf root "dir:p.a.A", .createLeaf root "dir:p.a.B", .createLeaf root "dir:q.a.B",
    .createLeaf root "dir:q.a.C", .link 3 4, .recordMissing 3 "x.Gone", .link 7 3,
    .link 8 4].foldl perform .empty
  found := 6
  parsed := 4
  duplicates := 2
  links := 3
  missing := 1
  skippedUnits :=
    [⟨"a", "Cannot create node at 'dir:p.a': 'dir:p.a' already exists as a container"⟩]
  skippedInputs := []
  inputs := ["dir:p", "dir:q"]

theorem run_isLinkedByName_overlapping :
    (run 61 overlapping { paths := ["p", "q"] }).2 = .ok overlappingProject ∧
    (∀ unit ∈ scannedUnits 61 overlapping { paths := ["p", "q"] },
      Segmented unit.input ∧ Segmented unit.unit.name) ∧
    overlappingProject.tree.uses 8 = [4] ∧ overlappingProject.tree.missing 3 = ["x.Gone"] ∧
    ∃ placed, (∀ x ∈ [3, 4, 7, 8], x ∈ placed.map (·.leaf)) ∧
      LinkedByName ["java.*"] (scannedUnits 61 overlapping { paths := ["p", "q"] }) placed
        overlappingProject := by
  have scanned : (run 61 overlapping { paths := ["p", "q"] }).2 = .ok overlappingProject := by
    decide +kernel
  have segmented : ∀ unit ∈ scannedUnits 61 overlapping { paths := ["p", "q"] },
      Segmented unit.input ∧ Segmented unit.unit.name := by
    decide +kernel
  have leaves : ∀ x ∈ [3, 4, 7, 8], overlappingProject.tree.isLeaf x = true := by decide +kernel
  obtain ⟨-, placed, linked⟩ := run_isLinkedByName scanned segmented
  refine ⟨scanned, segmented, by decide +kernel, by decide +kernel, placed, ?_, linked⟩
  intro x listed
  exact (linked.isLeaf_iff x).mp (leaves x listed)

end ClassCoupling.Scan
