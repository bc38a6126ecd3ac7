import ClassCoupling.Proofs.Scan.Accounting
import ClassCoupling.Proofs.Tree.Creation
import ClassCoupling.Proofs.Tree.Likeness
import Mathlib.Data.List.Perm.Subperm

/-!
# The names of inputs

An input goes by its own name, or by the first of `name_2`, `name_3`, … that no input before it
has. As the candidates are all different, one of them is free. No two inputs of a scan share a name,
and a unit is placed under the name of the input that it was loaded from.
-/

namespace ClassCoupling.Scan

open Tree Text

/-! ## Candidates -/

/-- The names that are tried for an input, in order: its own, then `name_2`, `name_3` and so on. -/
def candidate (name : String) : Nat → String
  | 0 => name
  | k + 1 => name ++ "_" ++ toString (k + 2)

/-- The first candidate that is not taken. It is found within as many tries as there are names
taken, and one more. -/
def FirstFree (taken : List String) (name chosen : String) : Prop :=
  ∃ tries ≤ taken.length, chosen = candidate name tries ∧ chosen ∉ taken ∧
    ∀ k < tries, candidate name k ∈ taken

theorem toString_injective {m n : Nat} (same : toString m = toString n) : m = n := by
  have digits : Nat.toDigits 10 m = Nat.toDigits 10 n := by
    simpa only [Nat.toString_eq_repr, Nat.toList_repr] using congrArg String.toList same
  calc
    m = Nat.ofDigitChars 10 (Nat.toDigits 10 m) 0 := Nat.ofDigitChars_ten_toDigits.symm
    _ = Nat.ofDigitChars 10 (Nat.toDigits 10 n) 0 := by rw [digits]
    _ = n := Nat.ofDigitChars_ten_toDigits

theorem candidate_injective (name : String) : Function.Injective (candidate name) := by
  have longer : ∀ k, candidate name (k + 1) ≠ name := by
    intro k same
    have lengths := congrArg String.length same
    simp only [candidate, String.length_append] at lengths
    have mark : "_".length = 1 := rfl
    omega
  intro k l same
  cases k with
  | zero =>
    cases l with
    | zero => rfl
    | succ l => exact absurd same.symm (longer l)
  | succ k =>
    cases l with
    | zero => exact absurd same (longer k)
    | succ l =>
      have numbers : toString (k + 2) = toString (l + 2) := by
        simpa [candidate, ← String.toList_inj] using same
      have equal := toString_injective numbers
      omega

/-- There are more candidates than names taken. -/
theorem exists_candidate_not_mem (taken : List String) (name : String) :
    ∃ k ≤ taken.length, candidate name k ∉ taken := by
  by_contra! all
  have distinct : ((List.range (taken.length + 1)).map (candidate name)).Nodup :=
    List.nodup_range.map (candidate_injective name)
  have among : (List.range (taken.length + 1)).map (candidate name) ⊆ taken := by
    intro chosen listed
    obtain ⟨k, small, rfl⟩ := List.mem_map.mp listed
    exact all k (Nat.le_of_lt_succ (List.mem_range.mp small))
  have fits := (distinct.subperm among).length_le
  rw [List.length_map, List.length_range] at fits
  exact absurd fits (Nat.not_succ_le_self _)

theorem candidates_eq (name : String) (n : Nat) :
    (List.range (n + 1)).map (candidate name) =
      name :: (List.range n).map fun k => name ++ "_" ++ toString (k + 2) := by
  rw [List.range_succ_eq_map, List.map_cons, List.map_map]
  rfl

theorem uniqueName_firstFree (taken : List String) (name : String) :
    FirstFree taken name (uniqueName taken name) := by
  have chosen : uniqueName taken name =
      (((List.range (taken.length + 2)).map (candidate name)).find? (· ∉ taken)).getD name := by
    rw [candidates_eq]
    rfl
  rw [List.find?_map] at chosen
  obtain ⟨k, small, free⟩ := exists_candidate_not_mem taken name
  cases found : (List.range (taken.length + 2)).find? ((· ∉ taken) ∘ candidate name) with
  | none =>
    have taken_k := List.find?_eq_none.mp found k (List.mem_range.mpr (by omega))
    simp [free] at taken_k
  | some tries =>
    rw [found, Option.map_some, Option.getD_some] at chosen
    obtain ⟨untaken, -, earlier⟩ := List.find?_range_eq_some.mp found
    have first : ∀ j < tries, candidate name j ∈ taken := by
      intro j before
      simpa using earlier j before
    refine ⟨tries, ?_, chosen, ?_, first⟩
    · by_contra late
      exact free (first k (by omega))
    · rw [chosen]
      simpa using untaken

/-! ## Inputs in turn -/

/-- Every input got the first name that was free when its turn came. -/
def NamedInTurn (loads : List (LoadedInput × String)) : Prop :=
  InTurn (fun before load => FirstFree (before.map (·.2)) load.1.name load.2) loads

theorem NamedInTurn.nodup {loads : List (LoadedInput × String)} (named : NamedInTurn loads) :
    (loads.map (·.2)).Nodup := by
  induction loads using List.reverseRecOn with
  | nil => exact List.nodup_nil
  | append_singleton loads load ih =>
    have earlier : NamedInTurn loads := by
      intro before other after parts
      exact named before other (after ++ [load]) (by rw [parts]; simp)
    obtain ⟨-, -, -, free, -⟩ := named loads load [] rfl
    rw [List.map_append, List.map_singleton, ← List.concat_eq_append, List.nodup_concat]
    exact ⟨free, ih earlier⟩

/-- What has been collected from the inputs loaded so far. -/
structure Collected.Holds (filter : UnitFilter) (c : Collected)
    (loads : List (LoadedInput × String)) : Prop where
  units : c.units = keptUnits filter loads
  inputs : c.inputs = loads.map (·.2)
  named : NamedInTurn loads

theorem Collected.Holds.add {filter : UnitFilter} {c : Collected}
    {loads : List (LoadedInput × String)} (holds : c.Holds filter loads) (input : LoadedInput) :
    (c.add filter input).Holds filter (loads ++ [(input, uniqueName c.inputs input.name)]) where
  units := by simp [Collected.add, holds.units, keptUnits]
  inputs := by simp [Collected.add, holds.inputs]
  named := by
    apply holds.named.concat
    rw [← holds.inputs]
    exact uniqueName_firstFree _ _

theorem Collected.Holds.collectFrom {source : Source} {filter : UnitFilter}
    {count position : Nat} {done paths : List String} {start result : Collected}
    {loads : List (LoadedInput × String)} (holds : start.Holds filter loads)
    (loaded : Loaded source filter done loads)
    (collected : (Scan.collectFrom source filter count position paths start).2 = .ok result) :
    ∃ all, Loaded source filter (done ++ paths) all ∧ result.Holds filter all := by
  induction paths generalizing position start done loads with
  | nil =>
    cases collected
    rw [List.append_nil]
    exact ⟨loads, loaded, holds⟩
  | cons path paths ih =>
    unfold Scan.collectFrom at collected
    dsimp only at collected
    split at collected
    next notices middle taken =>
      rw [List.append_cons]
      rcases collectPath_cases (congrArg Prod.snd taken) with ⟨skipped, units, inputs⟩ |
        ⟨wanted, input, load, rfl⟩
      · refine ih ⟨units.trans holds.units, inputs.trans holds.inputs, holds.named⟩ ?_ collected
        rw [← List.append_nil loads]
        exact loaded.append (loaded_skipped skipped)
      · exact ih (holds.add input) (loaded.append (loaded_singleton wanted load _)) collected
    next => cases collected

/-! ## The leaves of units -/

/-- A leaf and a path that leads to it. -/
def Seated (t : Tree) (path : String) (leaf : NodeId) : Prop :=
  t.isLeaf leaf = true ∧ t.descend root (passed path ++ [ending path]) = some leaf

/-- A unit under the name of its input: its leaf is called by both names and lies in the container
that the name of the input stands for. -/
structure StandsUnder (t : Tree) (input name : String) (leaf : NodeId) : Prop where
  isLeaf : t.isLeaf leaf = true
  fullName : t.fullName leaf = input ++ "." ++ name
  inside : Segmented input → ∃ container ∈ t.ancestors leaf, t.fullName container = input

section Seated

variable {t t' : Tree} {path input name : String} {leaf : NodeId}

theorem Seated.grow (seated : Seated t path leaf) (grown : Extends t t') : Seated t' path leaf :=
  ⟨grown.isLeaf seated.1, grown.descend seated.2⟩

theorem Seated.of_sameShape (seated : Seated t path leaf) (same : SameShape t t') :
    Seated t' path leaf := by
  rw [Seated, same.isLeaf, same.descend]
  exact seated

theorem Seated.of_isPlaced (reached : t.Reachable) (taken : isPlaced t path = true) :
    ∃ leaf, Seated t path leaf := by
  obtain ⟨leaf, found, isLeaf⟩ := isPlaced_iff.mp taken
  have segmented := reached.wellFormed.toContained.segmented_of_find? found
  rw [findByName?_eq segmented.ne_empty, split_eq_passed segmented] at found
  exact ⟨leaf, isLeaf, found⟩

theorem Seated.of_createLeaf (created : t.createLeaf root path = (t', .ok leaf)) :
    Seated t' path leaf :=
  ⟨isLeaf_of_createLeaf_eq_ok created, descend_of_createAlong_eq_ok (create_eq_ok_iff.mp created)⟩

theorem Seated.standsUnder (reached : t.Reachable) (seated : Seated t (input ++ "." ++ name) leaf) :
    StandsUnder t input name leaf := by
  obtain ⟨isLeaf, way⟩ := seated
  have tree := reached.wellFormed.toContained
  refine ⟨isLeaf, ?_, ?_⟩
  · rw [tree.fullName_of_descend (by simp) way, reached.fullName_root, join_passed_ending]
    rfl
  · intro segmented
    obtain ⟨above, last⟩ := passed_append segmented name
    rw [above, last, List.append_assoc, descend_append, Option.bind_eq_some_iff] at way
    obtain ⟨container, upper, lower⟩ := way
    refine ⟨container, tree.mem_ancestors_of_descend (by simp) lower, ?_⟩
    have whole : join "." (split '.' input) = input := join_split '.' input
    rw [tree.fullName_of_descend (split_ne_nil _ _) upper, reached.fullName_root, whole]
    rfl

end Seated

/-- Listed among the units that were skipped. -/
def Record.Skipped (r : Record) : Prop :=
  ∃ reason, r.fate = .unparsed reason ∨ r.fate = .unplaced reason

/-- A placement in which every unit that was not skipped has its leaf, and no other leaf is. -/
structure Placement.Seats (p : Placement) (log : List Record) : Prop where
  reached : p.tree.Reachable
  seated : ∀ r ∈ log, r.Skipped ∨
    ∃ leaf, (r.fate = .repeated ∨ r.leaf? = some leaf) ∧ Seated p.tree r.path leaf
  leaves : ∀ x, p.tree.isLeaf x = true → ∃ r ∈ log, r.leaf? = some x

namespace Placement.Seats

variable {maxMajor : Nat} {p p' : Placement} {log : List Record} {r : Record}

theorem empty : Seats {} [] where
  reached := .empty
  seated := by simp
  leaves x leaf := by
    have inner := (Placement.Follows.empty.isLeaf_iff x).mp leaf
    cases inner

theorem concat (seats : p.Seats log) (reached : p'.tree.Reachable) (grown : Extends p.tree p'.tree)
    (last : r.Skipped ∨
      ∃ leaf, (r.fate = .repeated ∨ r.leaf? = some leaf) ∧ Seated p'.tree r.path leaf)
    (leaves : ∀ x, p'.tree.isLeaf x = true → p.tree.isLeaf x = true ∨ r.leaf? = some x) :
    p'.Seats (log ++ [r]) where
  reached := reached
  seated other listed := by
    rcases List.mem_append.mp listed with old | new
    · refine (seats.seated other old).imp_right ?_
      rintro ⟨leaf, fate, seated⟩
      exact ⟨leaf, fate, seated.grow grown⟩
    · rw [List.mem_singleton.mp new]
      exact last
  leaves x leaf := by
    rcases leaves x leaf with old | new
    · obtain ⟨other, listed, here⟩ := seats.leaves x old
      exact ⟨other, List.mem_append_left _ listed, here⟩
    · exact ⟨r, List.mem_append_right _ (List.mem_singleton_self r), new⟩

theorem advance (seats : p.Seats log) (unit : CollectedUnit) :
    (Scan.advance maxMajor p unit).Seats (log ++ [⟨unit, fateIn maxMajor p unit⟩]) := by
  unfold Scan.advance fateIn
  rcases parseUnit_cases maxMajor unit with ⟨reason, failed⟩ | ⟨parsed, accepted, -, -, path⟩
  · rw [failed]
    exact seats.concat seats.reached (.refl _) (.inl ⟨reason, .inl rfl⟩) fun x leaf => .inl leaf
  rw [accepted]
  dsimp only
  have grown := extends_createLeaf p.tree root parsed.path
  have reached := seats.reached.createLeaf root parsed.path
  have leaves : ∀ x, (p.tree.createLeaf root parsed.path).1.isLeaf x = true →
      p.tree.isLeaf x = true ∨ (p.tree.createLeaf root parsed.path).2 = .ok x :=
    fun x => isLeaf_or_eq_of_createLeaf
  rcases place_spec p parsed with ⟨taken, fate, step⟩ | ⟨-, t, problem, failed, fate, step⟩ |
    ⟨-, t, leaf, created, fate, step⟩
  · rw [fate, step]
    obtain ⟨leaf, seated⟩ := Seated.of_isPlaced seats.reached taken
    rw [path] at seated
    exact seats.concat seats.reached (.refl _) (.inr ⟨leaf, .inl rfl, seated⟩) fun x leaf => .inl leaf
  · simp only [failed, reduceCtorEq, or_false] at grown reached leaves
    rw [fate, step]
    exact seats.concat reached grown (.inl ⟨_, .inr rfl⟩) fun x leaf => .inl (leaves x leaf)
  · have seated := Seated.of_createLeaf created
    simp only [created, Except.ok.injEq] at grown reached leaves
    rw [path] at seated
    have here : (⟨unit, fateOf p parsed⟩ : Record).leaf? = some leaf := by
      rw [fate]
      split <;> rfl
    rw [step]
    refine seats.concat reached grown (.inr ⟨leaf, .inr here, seated⟩) fun x isLeaf => ?_
    rw [here, Option.some.injEq]
    exact leaves x isLeaf

end Placement.Seats

theorem seats_placeAll (maxMajor : Nat) (collected : Collected) :
    (placeAll maxMajor collected).Seats (ledger maxMajor {} collected.units) := by
  rw [placeAll, foldl_place_parseAll]
  exact ledger_induction Placement.Seats (fun p log unit _ seats => seats.advance unit) .empty

/-! ## The inputs of a scan -/

/-- A project whose units stand under the names that their inputs were given in turn. -/
structure PlacedByInput (maxMajor : Nat) (filter : UnitFilter)
    (loads : List (LoadedInput × String)) (log : List Record) (project : Project) : Prop where
  named : NamedInTurn loads
  inputs : project.inputs = loads.map (·.2)
  units : log.map (·.unit) = keptUnits filter loads
  accounted : Accounted maxMajor log project
  under : ∀ r ∈ log, r.Skipped ∨ ∃ leaf, (r.fate = .repeated ∨ r.leaf? = some leaf) ∧
    StandsUnder project.tree r.unit.input r.name leaf
  leaves : ∀ x, project.tree.isLeaf x = true → ∃ r ∈ log, r.leaf? = some x

theorem placedByInput_assemble (maxMajor : Nat) {filter : UnitFilter} {collected : Collected}
    {loads : List (LoadedInput × String)} (holds : collected.Holds filter loads) :
    PlacedByInput maxMajor filter loads (ledger maxMajor {} collected.units)
      (assemble maxMajor filter collected).2 := by
  have seats := seats_placeAll maxMajor collected
  obtain ⟨reached, same⟩ := sound_assemble maxMajor filter collected
  refine
    { named := holds.named
      inputs := holds.inputs
      units := by rw [map_unit_ledger, holds.units]
      accounted := accounted_assemble maxMajor filter collected
      under := ?_, leaves := ?_ }
  · intro r listed
    refine (seats.seated r listed).imp_right ?_
    rintro ⟨leaf, fate, seated⟩
    exact ⟨leaf, fate, (seated.of_sameShape same).standsUnder reached⟩
  · rw [same.isLeaf]
    exact seats.leaves

/-- Every input has a name of its own, whatever it is called: the first candidate that is free when
its turn comes, and there is one. All that is placed from an input stands under that name. -/
theorem run_gives_inputs_their_own_names :
    (∀ taken name, FirstFree taken name (uniqueName taken name)) ∧
    ∀ maxMajor source request project, (run maxMajor source request).2 = .ok project →
      project.inputs.Nodup ∧ ∃ filter loads log,
        UnitFilter.make request.ignoredUnits request.ignoredSources [] = .ok filter ∧
        Loaded source filter request.paths loads ∧
        PlacedByInput maxMajor filter loads log project := by
  refine ⟨uniqueName_firstFree, ?_⟩
  intro maxMajor source request project scanned
  obtain ⟨filter, collected, made, gathered, rfl⟩ := eq_of_run scanned
  have unread : Loaded source filter [] [] := .nil
  have start : Collected.Holds filter {} [] := ⟨rfl, rfl, .nil _⟩
  obtain ⟨loads, loaded, holds⟩ := start.collectFrom unread gathered
  have placed := placedByInput_assemble maxMajor holds
  refine ⟨?_, filter, loads, _, made, loaded, placed⟩
  rw [placed.inputs]
  exact placed.named.nodup

/-- Three inputs, of which the second is called what the third would be called next. -/
def namesakes : Source where
  supports _ := true
  pathExists _ := true
  load path := .ok ⟨if path = "q" then "dir:a_2" else "dir:a",
    if path = "q" then [] else [⟨path, "A", ClassFile.unitBytes "A" []⟩]⟩

def namesakesRequest : Request where
  paths := ["p", "q", "r"]
  ignoredUnits := []
  ignoredSources := []

def namesakesProject : Project where
  tree := [.createLeaf root "dir:a.A", .createLeaf root "dir:a_3.A"].foldl perform .empty
  found := 2
  parsed := 2
  duplicates := 1
  links := 0
  missing := 0
  skippedUnits := []
  skippedInputs := []
  inputs := ["dir:a", "dir:a_2", "dir:a_3"]

set_option maxRecDepth 1000 in
theorem run_gives_inputs_their_own_names_namesakes :
    (run 57 namesakes namesakesRequest).2 = .ok namesakesProject ∧
    FirstFree ["dir:a", "dir:a_2"] "dir:a" "dir:a_3" ∧ namesakesProject.inputs.Nodup ∧
    ∃ filter loads log, Loaded namesakes filter ["p", "q", "r"] loads ∧
      PlacedByInput 57 filter loads log namesakesProject ∧ ∃ r ∈ log, r.leaf? = some 4 := by
  have scanned : (run 57 namesakes namesakesRequest).2 = .ok namesakesProject := by
    with_unfolding_all rfl
  obtain ⟨chosen, named⟩ := run_gives_inputs_their_own_names
  have third : FirstFree ["dir:a", "dir:a_2"] "dir:a" "dir:a_3" := chosen ["dir:a", "dir:a_2"] "dir:a"
  obtain ⟨nodup, filter, loads, log, -, loaded, placed⟩ := named 57 _ _ _ scanned
  exact ⟨scanned, third, nodup, filter, loads, log, loaded, placed,
    placed.leaves 4 (by with_unfolding_all rfl)⟩

end ClassCoupling.Scan
