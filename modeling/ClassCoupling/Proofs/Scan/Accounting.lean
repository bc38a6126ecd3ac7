import ClassCoupling.Proofs.Scan.Project

/-!
# What becomes of the units of a scan

Every unit that was collected ends up in one place: it is the first unit placed of its name, or it
is counted as a duplicate, or it is listed as skipped. A unit is kept out of the tree only by one
that was placed before it on the same way down.
-/

namespace ClassCoupling.Scan

open Tree Text

/-! ## The ledger -/

inductive Fate where
  /-- Its bytes are no unit of its name. -/
  | unparsed (reason : String)
  /-- Another unit stands in its way. -/
  | unplaced (reason : String)
  /-- Its path leads to a leaf already. -/
  | repeated
  /-- It was placed, but another unit had its name before. -/
  | shadowed (leaf : NodeId)
  /-- It was placed as the first unit of its name. -/
  | first (leaf : NodeId)
  deriving DecidableEq, Repr

/-- A collected unit and what became of it. -/
structure Record where
  unit : CollectedUnit
  fate : Fate
  deriving DecidableEq, Repr

namespace Record

def name (r : Record) : String := r.unit.unit.name

def path (r : Record) : String := r.unit.input ++ "." ++ r.name

def leaf? (r : Record) : Option NodeId :=
  match r.fate with
  | .shadowed leaf => some leaf
  | .first leaf => some leaf
  | _ => none

def isFirst (r : Record) : Bool :=
  match r.fate with
  | .first _ => true
  | _ => false

def isDuplicate (r : Record) : Bool :=
  match r.fate with
  | .repeated => true
  | .shadowed _ => true
  | _ => false

def unparsed? (r : Record) : Option Skipped :=
  match r.fate with
  | .unparsed reason => some ⟨r.unit.unit.origin, reason⟩
  | _ => none

def unplaced? (r : Record) : Option Skipped :=
  match r.fate with
  | .unplaced reason => some ⟨r.unit.unit.origin, reason⟩
  | _ => none

end Record

def placedRecords (log : List Record) : List Record := log.filter (·.leaf?.isSome)

def placedNames (log : List Record) : List String := (placedRecords log).map (·.name)

theorem length_eq_fates (log : List Record) :
    log.length = (log.filter Record.isFirst).length + (log.filter Record.isDuplicate).length +
      ((log.filterMap Record.unparsed?).length + (log.filterMap Record.unplaced?).length) := by
  induction log with
  | nil => rfl
  | cons r log ih =>
    obtain ⟨unit, fate⟩ := r
    cases fate <;>
      simp [List.filter_cons, List.filterMap_cons, Record.isFirst, Record.isDuplicate,
        Record.unparsed?, Record.unplaced?, ih] <;> omega

/-- What is true of each element of a list after those before it. -/
def InTurn {α : Type} (holds : List α → α → Prop) (log : List α) : Prop :=
  ∀ before r after, log = before ++ r :: after → holds before r

theorem InTurn.nil {α : Type} (holds : List α → α → Prop) : InTurn holds [] := by
  intro before r after parts
  simp at parts

theorem InTurn.concat {α : Type} {holds : List α → α → Prop} {log : List α} {r : α}
    (earlier : InTurn holds log) (last : holds log r) : InTurn holds (log ++ [r]) := by
  intro before other after parts
  rcases List.eq_nil_or_concat after with rfl | ⟨between, final, rfl⟩
  · obtain ⟨rfl, same⟩ := List.append_inj' parts rfl
    cases same
    exact last
  · rw [List.concat_eq_append, ← List.cons_append, ← List.append_assoc] at parts
    exact earlier before other between (List.append_inj' parts rfl).1

/-! ## Keeping it -/

def fateOf (p : Placement) (unit : ParsedInput) : Fate :=
  if isPlaced p.tree unit.path then .repeated
  else
    match p.tree.createLeaf root unit.path with
    | (_, .error problem) => .unplaced problem.message
    | (_, .ok leaf) =>
      if (p.byName.lookup unit.unit.name).isSome then .shadowed leaf else .first leaf

def fateIn (maxMajor : Nat) (p : Placement) (unit : CollectedUnit) : Fate :=
  match parseUnit maxMajor unit with
  | .error skipped => .unparsed skipped.reason
  | .ok parsed => fateOf p parsed

/-- Places one unit if it parses. -/
def advance (maxMajor : Nat) (p : Placement) (unit : CollectedUnit) : Placement :=
  match parseUnit maxMajor unit with
  | .error _ => p
  | .ok parsed => place p parsed

def ledger (maxMajor : Nat) : Placement → List CollectedUnit → List Record
  | _, [] => []
  | p, unit :: more => ⟨unit, fateIn maxMajor p unit⟩ :: ledger maxMajor (advance maxMajor p unit) more

theorem map_unit_ledger (maxMajor : Nat) (p : Placement) (units : List CollectedUnit) :
    (ledger maxMajor p units).map (·.unit) = units := by
  induction units generalizing p with
  | nil => rfl
  | cons unit units ih => rw [ledger, List.map_cons, ih]

theorem foldl_place_parseAll (maxMajor : Nat) (p : Placement) (units : List CollectedUnit) :
    (parseAll maxMajor units).1.foldl place p = units.foldl (advance maxMajor) p := by
  simp only [parseAll, List.filterMap_map, List.foldl_filterMap]
  congr 1
  funext p unit
  simp only [advance, Function.comp_apply]
  cases parseUnit maxMajor unit <;> rfl

/-- What each unit preserves, a scan preserves. -/
theorem ledger_induction {maxMajor : Nat} (invariant : Placement → List Record → Prop)
    {p : Placement} {log : List Record} {units : List CollectedUnit}
    (step : ∀ p log, ∀ unit ∈ units, invariant p log →
      invariant (advance maxMajor p unit) (log ++ [⟨unit, fateIn maxMajor p unit⟩]))
    (start : invariant p log) :
    invariant (units.foldl (advance maxMajor) p) (log ++ ledger maxMajor p units) := by
  induction units generalizing p log with
  | nil =>
    rw [ledger, List.append_nil]
    exact start
  | cons unit units ih =>
    have first := step p log unit List.mem_cons_self start
    have rest := ih (fun p log unit listed => step p log unit (List.mem_cons_of_mem _ listed)) first
    rw [ledger, List.append_cons]
    exact rest

/-- The three ways of a unit. -/
theorem place_spec (p : Placement) (unit : ParsedInput) :
    (isPlaced p.tree unit.path = true ∧ fateOf p unit = .repeated ∧
      place p unit = { p with duplicates := p.duplicates + 1 }) ∨
    (isPlaced p.tree unit.path ≠ true ∧ ∃ t problem,
      p.tree.createLeaf root unit.path = (t, .error problem) ∧
      fateOf p unit = .unplaced problem.message ∧
      place p unit =
        { p with tree := t, skipped := p.skipped ++ [⟨unit.origin, problem.message⟩] }) ∨
    (isPlaced p.tree unit.path ≠ true ∧ ∃ t leaf,
      p.tree.createLeaf root unit.path = (t, .ok leaf) ∧
      fateOf p unit = (if (p.byName.lookup unit.unit.name).isSome then .shadowed leaf
        else .first leaf) ∧
      place p unit =
        { p with
          tree := t
          byName := if (p.byName.lookup unit.unit.name).isSome then p.byName
            else p.byName ++ [(unit.unit.name, leaf)]
          placed := p.placed ++ [⟨leaf, unit.unit.dependencies⟩]
          duplicates := if (p.byName.lookup unit.unit.name).isSome then p.duplicates + 1
            else p.duplicates }) := by
  unfold fateOf place
  by_cases taken : isPlaced p.tree unit.path = true
  · exact .inl ⟨taken, if_pos taken, if_pos taken⟩
  · right
    rcases created : p.tree.createLeaf root unit.path with ⟨t, problem | leaf⟩
    · refine .inl ⟨taken, t, problem, rfl, ?_, ?_⟩
      · rw [if_neg taken]
      · dsimp only
        rw [ParsedInput.path] at taken created
        rw [if_neg taken, created]
    · refine .inr ⟨taken, t, leaf, rfl, ?_, ?_⟩
      · rw [if_neg taken]
      · dsimp only
        rw [ParsedInput.path] at taken created
        rw [if_neg taken, created]

/-! ## What the counts of a placement count -/

/-- What a record says of its unit, given those before it. -/
structure Record.Justified (maxMajor : Nat) (before : List Record) (r : Record) : Prop where
  unparsed_iff : ∀ reason, r.fate = .unparsed reason ↔
    parseUnit maxMajor r.unit = .error ⟨r.unit.unit.origin, reason⟩
  first : ∀ leaf, r.fate = .first leaf → r.name ∉ placedNames before
  shadowed : ∀ leaf, r.fate = .shadowed leaf → r.name ∈ placedNames before

/-- A name counts when it is placed for the first time. -/
theorem Record.Justified.eraseDups_placedNames {maxMajor : Nat} {log : List Record} {r : Record}
    (justified : r.Justified maxMajor log) :
    (placedNames (log ++ [r])).eraseDups =
      (placedNames log).eraseDups ++ if r.isFirst then [r.name] else [] := by
  have grown : placedNames (log ++ [r]) = placedNames log ++ placedNames [r] := by
    simp [placedNames, placedRecords]
  rw [grown, List.eraseDups_append]
  obtain ⟨unit, fate⟩ := r
  cases fate with
  | unparsed reason => rfl
  | unplaced reason => rfl
  | repeated => rfl
  | shadowed leaf =>
    have alone : placedNames [⟨unit, .shadowed leaf⟩] = [unit.unit.name] := rfl
    have known : unit.unit.name ∈ placedNames log := justified.shadowed leaf rfl
    simp [alone, List.removeAll, known, Record.isFirst]
  | first leaf =>
    have alone : placedNames [⟨unit, .first leaf⟩] = [unit.unit.name] := rfl
    have new : unit.unit.name ∉ placedNames log := justified.first leaf rfl
    simp [alone, List.removeAll, new, Record.isFirst, Record.name, List.eraseDups_cons]

/-- A placement and the records of the units it has seen. -/
structure Placement.Tallies (maxMajor : Nat) (p : Placement) (log : List Record) : Prop where
  in_turn : InTurn (Record.Justified maxMajor) log
  firsts : p.byName.map (·.1) = (log.filter Record.isFirst).map (·.name)
  names : p.byName.map (·.1) = (placedNames log).eraseDups
  placed : p.placed.map (·.leaf) = log.filterMap Record.leaf?
  duplicates : p.duplicates = (log.filter Record.isDuplicate).length
  skipped : p.skipped = log.filterMap Record.unplaced?

theorem parseUnit_cases (maxMajor : Nat) (unit : CollectedUnit) :
    (∃ reason, parseUnit maxMajor unit = .error ⟨unit.unit.origin, reason⟩) ∨
      ∃ parsed, parseUnit maxMajor unit = .ok parsed ∧ parsed.origin = unit.unit.origin ∧
        parsed.unit.name = unit.unit.name ∧ parsed.path = unit.input ++ "." ++ unit.unit.name := by
  cases result : parseUnit maxMajor unit with
  | error skipped =>
    unfold parseUnit at result
    split at result
    next => cases result
    next =>
      cases result
      exact .inl ⟨_, rfl⟩
  | ok parsed =>
    have named := (parseUnit_eq_ok result).1
    unfold parseUnit at result
    split at result
    next =>
      cases result
      exact .inr ⟨_, rfl, rfl, named, by rw [ParsedInput.path, named]⟩
    next => cases result

namespace Placement.Tallies

variable {maxMajor : Nat} {p : Placement} {log : List Record}

theorem empty : Tallies maxMajor {} [] := ⟨.nil _, rfl, rfl, rfl, rfl, rfl⟩

theorem isSome_lookup_iff (tallies : p.Tallies maxMajor log) (name : String) :
    (p.byName.lookup name).isSome = true ↔ name ∈ placedNames log := by
  rw [← List.mem_eraseDups, ← tallies.names, List.lookup_isSome_iff, List.mem_map]
  simp only [beq_iff_eq, eq_comm (a := name)]

theorem concat (tallies : p.Tallies maxMajor log) {p' : Placement} {r : Record}
    (justified : r.Justified maxMajor log)
    (byName : p'.byName.map (·.1) = p.byName.map (·.1) ++ if r.isFirst then [r.name] else [])
    (placed : p'.placed.map (·.leaf) = p.placed.map (·.leaf) ++ r.leaf?.toList)
    (duplicates : p'.duplicates = p.duplicates + if r.isDuplicate then 1 else 0)
    (skipped : p'.skipped = p.skipped ++ r.unplaced?.toList) :
    p'.Tallies maxMajor (log ++ [r]) where
  in_turn := tallies.in_turn.concat justified
  firsts := by
    rw [byName, tallies.firsts, List.filter_append, List.map_append]
    cases first : r.isFirst <;> simp [first]
  names := by rw [byName, tallies.names, justified.eraseDups_placedNames]
  placed := by
    rw [placed, tallies.placed, List.filterMap_append]
    cases leaf : r.leaf? <;> simp [leaf]
  duplicates := by
    rw [duplicates, tallies.duplicates, List.filter_append, List.length_append]
    cases duplicate : r.isDuplicate <;> simp [duplicate]
  skipped := by
    rw [skipped, tallies.skipped, List.filterMap_append]
    cases unplaced : r.unplaced? <;> simp [unplaced]

/-- A unit that is not placed leaves names and leaves as they are. -/
theorem concat_of_leaf?_eq_none (tallies : p.Tallies maxMajor log) {p' : Placement} {r : Record}
    (justified : r.Justified maxMajor log) (nowhere : r.leaf? = none)
    (byName : p'.byName = p.byName) (placed : p'.placed = p.placed)
    (duplicates : p'.duplicates = p.duplicates + if r.isDuplicate then 1 else 0)
    (skipped : p'.skipped = p.skipped ++ r.unplaced?.toList) :
    p'.Tallies maxMajor (log ++ [r]) := by
  have later : r.isFirst = false := by
    obtain ⟨unit, fate⟩ := r
    cases fate with
    | first leaf => cases nowhere
    | unparsed | unplaced | repeated | shadowed => rfl
  refine tallies.concat justified ?_ ?_ duplicates skipped
  · simp [byName, later]
  · simp [placed, nowhere]

theorem advance (tallies : p.Tallies maxMajor log) (unit : CollectedUnit) :
    (Scan.advance maxMajor p unit).Tallies maxMajor (log ++ [⟨unit, fateIn maxMajor p unit⟩]) := by
  unfold Scan.advance fateIn
  rcases parseUnit_cases maxMajor unit with ⟨reason, failed⟩ | ⟨parsed, accepted, origin, named, -⟩
  · rw [failed]
    refine tallies.concat_of_leaf?_eq_none ⟨?_, nofun, nofun⟩ rfl rfl rfl rfl ?_
    · simp [failed]
    · exact (List.append_nil _).symm
  rw [accepted]
  dsimp only
  rcases place_spec p parsed with ⟨-, fate, step⟩ | ⟨-, t, problem, -, fate, step⟩ |
    ⟨-, t, leaf, -, fate, step⟩
  · rw [fate, step]
    refine tallies.concat_of_leaf?_eq_none ⟨?_, nofun, nofun⟩ rfl rfl rfl rfl ?_
    · simp [accepted]
    · exact (List.append_nil _).symm
  · rw [fate, step, origin]
    refine tallies.concat_of_leaf?_eq_none ⟨?_, nofun, nofun⟩ rfl rfl rfl rfl rfl
    simp [accepted]
  · rw [fate, step, named]
    have known := tallies.isSome_lookup_iff unit.unit.name
    by_cases shadowed : (p.byName.lookup unit.unit.name).isSome = true
    · simp only [if_pos shadowed]
      refine tallies.concat ⟨?_, nofun, fun _ _ => known.mp shadowed⟩ ?_ ?_ rfl ?_
      · simp [accepted]
      · simp [Record.isFirst]
      · simp [Record.leaf?]
      · simp [Record.unplaced?]
    · simp only [if_neg shadowed]
      refine tallies.concat ⟨?_, fun _ _ => mt known.mpr shadowed, nofun⟩ ?_ ?_ rfl ?_
      · simp [accepted]
      · simp [Record.isFirst, Record.name]
      · simp [Record.leaf?]
      · simp [Record.unplaced?]

end Placement.Tallies

/-! ## Obstacles are units -/

/-- A path that goes on where another one ends. -/
def Continues (path longer : String) : Prop := ∃ more, longer = path ++ "." ++ more

/-- What a record says of a unit that parses, when no name has an empty segment. -/
structure Record.Charted (before : List Record) (r : Record) : Prop where
  repeated_iff : r.fate = .repeated ↔ ∃ other ∈ placedRecords before, other.path = r.path
  unplaced_iff : (∃ reason, r.fate = .unplaced reason) ↔ ∃ other ∈ placedRecords before,
    Continues other.path r.path ∨ Continues r.path other.path

/-- A placement in which every container lies on the way to a unit placed before. -/
structure Placement.Charts (p : Placement) (log : List Record) (placed : List Settled) : Prop where
  follows : ∃ seen, p.Follows seen placed
  inner : ∀ x < p.tree.size, x ≠ root → p.tree.isLeaf x = false → ∃ s ∈ placed, ∃ above below,
    below ≠ [] ∧ split '.' s.parsed.path = above ++ below ∧ p.tree.descend root above = some x
  paths : placed.map (·.parsed.path) = (placedRecords log).map (·.path)

theorem split_continues (path more : String) :
    split '.' (path ++ "." ++ more) = split '.' path ++ split '.' more := split_append '.' path more

theorem continues_of_split {path longer : String} {more : List String}
    (parts : split '.' longer = split '.' path ++ more) (some_more : more ≠ []) :
    Continues path longer := by
  have dot : String.singleton '.' = "." := rfl
  have whole := exists_append_of_split parts some_more
  rw [dot] at whole
  exact whole

namespace Placement.Charts

variable {p : Placement} {log : List Record} {placed : List Settled} {unit : ParsedInput}

theorem exists_path_iff (charts : p.Charts log placed) (holds : String → Prop) :
    (∃ s ∈ placed, holds s.parsed.path) ↔ ∃ r ∈ placedRecords log, holds r.path := by
  have same : ∀ path, (∃ s ∈ placed, s.parsed.path = path) ↔
      ∃ r ∈ placedRecords log, r.path = path := by
    intro path
    rw [← List.mem_map, charts.paths, List.mem_map]
  constructor
  · rintro ⟨s, listed, fits⟩
    obtain ⟨r, recorded, path⟩ := (same s.parsed.path).mp ⟨s, listed, rfl⟩
    exact ⟨r, recorded, path ▸ fits⟩
  · rintro ⟨r, recorded, fits⟩
    obtain ⟨s, listed, path⟩ := (same r.path).mpr ⟨r, recorded, rfl⟩
    exact ⟨s, listed, path ▸ fits⟩

theorem descend_path {seen : List ParsedInput} (follows : p.Follows seen placed) {s : Settled}
    (listed : s ∈ placed) : p.tree.descend root (split '.' s.parsed.path) = some s.leaf := by
  rw [← findByName?_eq (follows.segmented _ (follows.mem_seen listed)).ne_empty]
  exact follows.found s listed

/-- What stands in the way of a unit is a unit, or the containers that lead to one. -/
theorem blocked_iff (charts : p.Charts log placed) :
    p.tree.Blocked root (split '.' unit.path) ↔ ∃ s ∈ placed,
      Continues s.parsed.path unit.path ∨ Continues unit.path s.parsed.path := by
  obtain ⟨seen, follows⟩ := charts.follows
  have tree := follows.reached.wellFormed.toContained
  constructor
  · rintro ⟨above, below, x, parts, way, ends⟩
    by_cases leaf : p.tree.isLeaf x = true
    · obtain ⟨s, listed, rfl⟩ := List.mem_map.mp ((follows.isLeaf_iff x).mp leaf)
      rw [tree.descend_injective way (descend_path follows listed)] at parts
      exact ⟨s, listed, .inl (continues_of_split parts (ends.mp leaf))⟩
    · have whole : below = [] := by
        by_contra more
        exact leaf (ends.mpr more)
      rw [whole, List.append_nil] at parts
      subst parts
      have below_root : x ≠ root := by
        rintro rfl
        exact split_ne_nil _ _ (tree.descend_injective way descend_nil)
      obtain ⟨s, listed, above, below, more, parts, again⟩ := charts.inner x
        (tree.lt_of_descend tree.size_pos way) below_root (Bool.eq_false_iff.mpr leaf)
      rw [← tree.descend_injective way again] at parts
      exact ⟨s, listed, .inr (continues_of_split parts more)⟩
  · rintro ⟨s, listed, ⟨more, longer⟩ | ⟨more, longer⟩⟩
    · refine ⟨_, split '.' more, s.leaf, ?_, descend_path follows listed, ?_⟩
      · rw [longer, split_continues]
      · exact iff_of_true (follows.isLeaf listed) (split_ne_nil _ _)
    · have way := descend_path follows listed
      rw [longer, split_continues, descend_append, Option.bind_eq_some_iff] at way
      obtain ⟨x, upper, lower⟩ := way
      refine ⟨_, [], x, (List.append_nil _).symm, upper, iff_of_false ?_ (not_not_intro rfl)⟩
      intro leaf
      obtain ⟨segment, rest, parts⟩ := List.exists_cons_of_ne_nil (split_ne_nil '.' more)
      rw [parts, descend_cons, child?_eq_none_of_isLeaf leaf] at lower
      cases lower

theorem isPlaced_iff (charts : p.Charts log placed) (segmented : Segmented unit.path) :
    isPlaced p.tree unit.path = true ↔ ∃ s ∈ placed, s.parsed.path = unit.path := by
  obtain ⟨seen, follows⟩ := charts.follows
  rw [Scan.isPlaced_iff]
  constructor
  · rintro ⟨x, found, leaf⟩
    exact follows.exists_of_findByName? segmented found leaf
  · rintro ⟨s, listed, same⟩
    exact ⟨s.leaf, same ▸ follows.found s listed, follows.isLeaf listed⟩

/-- Only an obstacle keeps a unit from being placed, and every obstacle does. -/
theorem unplaced_iff (charts : p.Charts log placed) (segmented : Segmented unit.path) :
    (∃ reason, fateOf p unit = .unplaced reason) ↔
      p.tree.Blocked root (split '.' unit.path) := by
  obtain ⟨seen, follows⟩ := charts.follows
  have tree := follows.reached.wellFormed.toContained
  rcases place_spec p unit with ⟨taken, fate, -⟩ | ⟨-, t, problem, failed, fate, -⟩ |
    ⟨-, t, leaf, created, fate, -⟩
  · obtain ⟨x, found, leaf⟩ := Scan.isPlaced_iff.mp taken
    rw [findByName?_eq segmented.ne_empty] at found
    exact iff_of_false (by simp [fate]) (not_blocked_of_isLeaf found leaf)
  · have blocked := blocked_of_createLeaf_eq_error tree tree.size_pos segmented failed
    rw [eq_of_createLeaf_eq_error segmented failed] at blocked
    exact iff_of_true ⟨_, fate⟩ blocked
  · refine iff_of_false ?_ ?_
    · rw [fate]
      split <;> simp
    · intro blocked
      have grown := extends_createLeaf p.tree root unit.path
      rw [created] at grown
      exact not_blocked_of_isLeaf (descend_of_createLeaf_eq_ok segmented created)
        (isLeaf_of_createLeaf_eq_ok created) (grown.blocked tree tree.size_pos blocked)

theorem repeated_iff (charts : p.Charts log placed) (segmented : Segmented unit.path) :
    fateOf p unit = .repeated ↔ ∃ s ∈ placed, s.parsed.path = unit.path := by
  rw [← charts.isPlaced_iff segmented]
  rcases place_spec p unit with ⟨taken, fate, -⟩ | ⟨free, _, _, -, fate, -⟩ |
    ⟨free, _, _, -, fate, -⟩
  · exact iff_of_true fate taken
  · exact iff_of_false (by simp [fate]) free
  · refine iff_of_false ?_ free
    rw [fate]
    split <;> simp

theorem charted (charts : p.Charts log placed) (segmented : Segmented unit.path)
    {collected : CollectedUnit} (path : unit.path = collected.input ++ "." ++ collected.unit.name) :
    Record.Charted log ⟨collected, fateOf p unit⟩ where
  repeated_iff := by
    rw [charts.repeated_iff segmented, charts.exists_path_iff (· = unit.path), path]
    rfl
  unplaced_iff := by
    rw [charts.unplaced_iff segmented, charts.blocked_iff,
      charts.exists_path_iff fun other => Continues other unit.path ∨ Continues unit.path other, path]
    rfl

theorem paths_concat_of_leaf?_eq_none (charts : p.Charts log placed) {r : Record}
    (none : r.leaf? = none) :
    placed.map (·.parsed.path) = (placedRecords (log ++ [r])).map (·.path) := by
  simp [charts.paths, placedRecords, none]

theorem place (charts : p.Charts log placed) (segmented : Segmented unit.path)
    {collected : CollectedUnit} (path : unit.path = collected.input ++ "." ++ collected.unit.name) :
    ∃ placed', (Scan.place p unit).Charts (log ++ [⟨collected, fateOf p unit⟩]) placed' := by
  obtain ⟨seen, follows⟩ := charts.follows
  rcases place_spec p unit with ⟨taken, fate, step⟩ | ⟨free, t, problem, failed, fate, step⟩ |
    ⟨free, t, leaf, created, fate, step⟩
  · rw [fate, step]
    exact ⟨placed, ⟨_, follows.duplicate segmented taken⟩, charts.inner,
      charts.paths_concat_of_leaf?_eq_none rfl⟩
  · rw [fate, step]
    refine ⟨placed, ⟨_, follows.skip segmented failed⟩, ?_,
      charts.paths_concat_of_leaf?_eq_none rfl⟩
    rw [eq_of_createLeaf_eq_error segmented failed]
    exact charts.inner
  · rw [step]
    refine ⟨_, ⟨_, follows.settle segmented free created _⟩, ?_, ?_⟩
    · have grown := extends_createLeaf p.tree root unit.path
      rw [created] at grown
      intro x present below_root container
      by_cases old : x < p.tree.size
      · rw [Tree.isLeaf, grown.kind x old] at container
        obtain ⟨s, listed, above, below, more, parts, way⟩ :=
          charts.inner x old below_root container
        exact ⟨s, List.mem_append_left _ listed, above, below, more, parts, grown.descend way⟩
      · obtain ⟨above, below, parts, way⟩ := exists_descend_of_createLeaf_eq_ok segmented created
          (Nat.le_of_not_lt old) present
        refine ⟨⟨unit, leaf⟩, List.mem_append_right _ (List.mem_singleton_self _), above, below, ?_,
          parts, way⟩
        -- At the end of the way stands the new leaf, which is no container.
        rintro rfl
        rw [List.append_nil] at parts
        rw [← parts, descend_of_createLeaf_eq_ok segmented created] at way
        cases way
        rw [isLeaf_of_createLeaf_eq_ok created] at container
        cases container
    · have recorded : (⟨collected, fateOf p unit⟩ : Record).leaf?.isSome = true := by
        rw [fate]
        split <;> rfl
      have appended : placedRecords (log ++ [⟨collected, fateOf p unit⟩]) =
          placedRecords log ++ [⟨collected, fateOf p unit⟩] := by simp [placedRecords, recorded]
      rw [appended, List.map_append, List.map_append, charts.paths, List.map_singleton,
        List.map_singleton, path]
      rfl

end Placement.Charts

/-! ## The units of a scan -/

/-- A project in which every record is accounted for. -/
structure Accounted (maxMajor : Nat) (log : List Record) (project : Project) : Prop where
  in_turn : InTurn (Record.Justified maxMajor) log
  found : project.found = log.length
  parsed : project.parsed = (placedRecords log).length
  leaves : ∀ r ∈ log, ∀ leaf, r.leaf? = some leaf → project.tree.isLeaf leaf = true
  duplicates : project.duplicates = (log.filter Record.isDuplicate).length
  skipped : project.skippedUnits =
    log.filterMap Record.unparsed? ++ log.filterMap Record.unplaced?
  balance : project.found = (placedNames log).eraseDups.length + project.duplicates +
    project.skippedUnits.length

theorem unparsed_eq {maxMajor : Nat} {log : List Record}
    (in_turn : InTurn (Record.Justified maxMajor) log) :
    (parseAll maxMajor (log.map (·.unit))).2 = log.filterMap Record.unparsed? := by
  simp only [parseAll, List.filterMap_map]
  apply List.filterMap_congr
  intro r listed
  obtain ⟨before, after, parts⟩ := List.append_of_mem listed
  have unparsed_iff := (in_turn before r after parts).unparsed_iff
  rcases parseUnit_cases maxMajor r.unit with ⟨reason, failed⟩ | ⟨parsed, accepted, -⟩
  · simp [failed, Record.unparsed?, (unparsed_iff reason).mpr failed]
  · obtain ⟨unit, fate⟩ := r
    cases fate with
    | unparsed reason =>
      have failed := (unparsed_iff reason).mp rfl
      rw [accepted] at failed
      cases failed
    | unplaced | repeated | shadowed | first => simp [accepted, Record.unparsed?]

theorem tallies_placeAll (maxMajor : Nat) (collected : Collected) :
    (placeAll maxMajor collected).Tallies maxMajor (ledger maxMajor {} collected.units) := by
  rw [placeAll, foldl_place_parseAll]
  exact ledger_induction (Placement.Tallies maxMajor)
    (fun p log unit _ tallies => tallies.advance unit) .empty

theorem accounted_assemble (maxMajor : Nat) (filter : UnitFilter) (collected : Collected) :
    Accounted maxMajor (ledger maxMajor {} collected.units)
      (assemble maxMajor filter collected).2 := by
  have tallies := tallies_placeAll maxMajor collected
  have unparsed := unparsed_eq tallies.in_turn
  rw [map_unit_ledger] at unparsed
  have skipped : (assemble maxMajor filter collected).2.skippedUnits =
      (ledger maxMajor {} collected.units).filterMap Record.unparsed? ++
        (ledger maxMajor {} collected.units).filterMap Record.unplaced? := by
    rw [← unparsed, ← tallies.skipped]
    rfl
  have found : (assemble maxMajor filter collected).2.found =
      (ledger maxMajor {} collected.units).length := by
    have counted := congrArg List.length (map_unit_ledger maxMajor {} collected.units)
    rw [List.length_map] at counted
    exact counted.symm
  refine
    { in_turn := tallies.in_turn, found, skipped
      parsed := ?_, leaves := ?_
      duplicates := tallies.duplicates
      balance := ?_ }
  · have counted := congrArg List.length tallies.placed
    rw [List.length_map, List.length_filterMap_eq_countP, List.countP_eq_length_filter] at counted
    exact counted
  · intro r listed leaf recorded
    have placed : leaf ∈ (placeAll maxMajor collected).placed.map (·.leaf) := by
      rw [tallies.placed]
      exact List.mem_filterMap.mpr ⟨r, listed, recorded⟩
    obtain ⟨unit, among, rfl⟩ := List.mem_map.mp placed
    rw [(sound_assemble maxMajor filter collected).2.isLeaf]
    exact (sound_placeAll maxMajor collected).placed unit among
  · have names := congrArg List.length (tallies.firsts.symm.trans tallies.names)
    rw [List.length_map] at names
    rw [found, skipped, List.length_append, ← names, length_eq_fates]
    exact congrArg (· + _) (congrArg (_ + ·) tallies.duplicates.symm)

/-- Every unit that parses is charted. -/
def Charted (maxMajor : Nat) (log : List Record) : Prop :=
  InTurn (fun before r => (∃ parsed, parseUnit maxMajor r.unit = .ok parsed) → r.Charted before) log

theorem charted_ledger {maxMajor : Nat} {units : List CollectedUnit}
    (segmented : ∀ unit ∈ (parseAll maxMajor units).1, Segmented unit.path) :
    Charted maxMajor (ledger maxMajor {} units) := by
  let invariant (p : Placement) (log : List Record) : Prop :=
    Charted maxMajor log ∧ ∃ placed, p.Charts log placed
  have start : invariant {} [] := by
    refine ⟨.nil _, [], ⟨[], .empty⟩, ?_, rfl⟩
    intro x present below_root
    exact absurd (Nat.lt_one_iff.mp present) below_root
  have step : ∀ p log, ∀ unit ∈ units, invariant p log →
      invariant (advance maxMajor p unit) (log ++ [⟨unit, fateIn maxMajor p unit⟩]) := by
    rintro p log unit listed ⟨earlier, placed, charts⟩
    unfold advance fateIn
    rcases parseUnit_cases maxMajor unit with ⟨reason, failed⟩ | ⟨parsed, accepted, -, -, path⟩
    · rw [failed]
      refine ⟨earlier.concat ?_, placed, charts.follows, charts.inner,
        charts.paths_concat_of_leaf?_eq_none rfl⟩
      rintro ⟨parsed, accepted⟩
      rw [failed] at accepted
      cases accepted
    · rw [accepted]
      have plain := segmented parsed (mem_parseAll.mpr ⟨unit, listed, accepted⟩)
      exact ⟨earlier.concat fun _ => charts.charted plain path, charts.place plain path⟩
  exact (ledger_induction invariant step start).1

/-- No unit is lost: each is the first placed of its name, or a duplicate, or skipped, and only
units placed before it on the same way down keep it from being placed. -/
theorem run_accounts_for_units {maxMajor : Nat} {source : Source} {request : Request}
    {project : Project} (scanned : (run maxMajor source request).2 = .ok project) :
    ∃ log, log.map (·.unit) = collectedUnits source request ∧ Accounted maxMajor log project ∧
      ((∀ unit ∈ scannedUnits maxMajor source request,
          Segmented unit.input ∧ Segmented unit.unit.name) → Charted maxMajor log) := by
  obtain ⟨filter, collected, made, gathered, rfl⟩ := eq_of_run scanned
  have all : collectedUnits source request = collected.units := by
    simp only [collectedUnits, made, gathered]
  have units : scannedUnits maxMajor source request = (parseAll maxMajor collected.units).1 := by
    simp only [scannedUnits, made, gathered]
  rw [all, units]
  refine ⟨_, map_unit_ledger maxMajor {} collected.units,
    accounted_assemble maxMajor filter collected, ?_⟩
  intro segmented
  apply charted_ledger
  intro unit listed
  exact (segmented unit listed).1.append (segmented unit listed).2

/-- A unit with a torn copy, a whole one, one below it, one above it and one in another input. -/
def crowded : Source where
  supports _ := true
  pathExists _ := true
  load path := .ok ⟨"dir:" ++ path,
    if path = "p" then [
      ⟨"A", "a.A", ClassFile.unitBytes "a/A" []⟩,
      ⟨"torn", "a.T", [0xCA, 0xFE]⟩,
      ⟨"copy", "a.A", ClassFile.unitBytes "a/A" []⟩,
      ⟨"below", "a.A.B", ClassFile.unitBytes "a/A/B" []⟩,
      ⟨"above", "a", ClassFile.unitBytes "a" []⟩]
    else [⟨"A", "a.A", ClassFile.unitBytes "a/A" []⟩]⟩

def crowdedProject : Project where
  tree := [.createLeaf root "dir:p.a.A", .createLeaf root "dir:q.a.A"].foldl perform .empty
  found := 6
  parsed := 2
  duplicates := 2
  links := 0
  missing := 0
  skippedUnits := [
    ⟨"torn", "a.T is not a valid compiled unit: stream ends unexpectedly"⟩,
    ⟨"below", "Cannot create node at 'dir:p.a.A.B': 'dir:p.a.A' already exists as a leaf"⟩,
    ⟨"above", "Cannot create node at 'dir:p.a': 'dir:p.a' already exists as a container"⟩]
  skippedInputs := []
  inputs := ["dir:p", "dir:q"]

theorem run_accounts_for_units_crowded :
    (run 61 crowded { paths := ["p", "q"] }).2 = .ok crowdedProject ∧
    (∀ unit ∈ scannedUnits 61 crowded { paths := ["p", "q"] },
      Segmented unit.input ∧ Segmented unit.unit.name) ∧
    ∃ log, log.map (·.unit) = collectedUnits crowded { paths := ["p", "q"] } ∧
      Accounted 61 log crowdedProject ∧ Charted 61 log ∧ (placedNames log).eraseDups.length = 1 := by
  have scanned : (run 61 crowded { paths := ["p", "q"] }).2 = .ok crowdedProject := by
    decide +kernel
  have segmented : ∀ unit ∈ scannedUnits 61 crowded { paths := ["p", "q"] },
      Segmented unit.input ∧ Segmented unit.unit.name := by
    decide +kernel
  obtain ⟨log, units, accounted, charted⟩ := run_accounts_for_units scanned
  have balance : 6 = (placedNames log).eraseDups.length + 2 + 3 := accounted.balance
  exact ⟨scanned, segmented, log, units, accounted, charted segmented, by omega⟩

end ClassCoupling.Scan
