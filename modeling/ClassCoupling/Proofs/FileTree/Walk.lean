import ClassCoupling.Proofs.FileTree.Resolution
import ClassCoupling.Proofs.Text.NameSet
import Mathlib.Data.List.Induction
import Mathlib.Data.List.Lex
import Mathlib.Data.List.Sort

/-!
# Walks through a directory

A walk goes through the names of a directory in order and through each directory right after its own
name; links and files are passed by. Everything below a place, sorted by the names on the way, is
such a walk.
-/

namespace ClassCoupling.FileTree

/-- A name of an entry that can be part of a path. -/
structure IsFileName (name : String) : Prop extends IsName name where
  no_slash : '/' ∉ name.toList
  no_nul : '\x00' ∉ name.toList

instance (name : String) : Decidable (IsFileName name) :=
  decidable_of_iff (Path.isTrivial name = false ∧ name ≠ ".." ∧ name.length ≤ maxNameLength ∧
      '/' ∉ name.toList ∧ '\x00' ∉ name.toList)
    ⟨fun ⟨trivial, up, short, slash, nul⟩ => ⟨⟨trivial, up, short⟩, slash, nul⟩,
      fun named => ⟨named.not_trivial, named.not_up, named.short, named.no_slash, named.no_nul⟩⟩

/-- Every item has a place of its own, under a name in a directory. -/
structure WellFormed (t : FileTree) : Prop where
  distinct : (t.items.map Prod.fst).Nodup
  entered : ∀ entry ∈ t.items, entry.1 ≠ [] ∧ t.isDirectoryAt entry.1.dropLast = true ∧
    IsFileName (entry.1.getLastD "")

instance (t : FileTree) : Decidable t.WellFormed :=
  decidable_of_iff ((t.items.map Prod.fst).Nodup ∧ ∀ entry ∈ t.items, entry.1 ≠ [] ∧
      t.isDirectoryAt entry.1.dropLast = true ∧ IsFileName (entry.1.getLastD ""))
    ⟨fun ⟨distinct, entered⟩ => ⟨distinct, entered⟩, fun wf => ⟨wf.distinct, wf.entered⟩⟩

/-- An item lies below a place if directories lead there from it. -/
inductive LiesBelow (t : FileTree) : Location → Location → Item → Prop
  | entry {place : Location} {name : String} {item : Item} :
      t.at? (place ++ [name]) = some item → LiesBelow t place [name] item
  | inside {place names : Location} {name : String} {item : Item} :
      t.at? (place ++ [name]) = some .directory → LiesBelow t (place ++ [name]) names item →
      LiesBelow t place (name :: names) item

/-- The names of a directory in order. -/
structure Lists (t : FileTree) (place : Location) (names : List String) : Prop where
  sorted : names.Pairwise (· < ·)
  mem_iff : ∀ name, name ∈ names ↔ ∃ item, t.at? (place ++ [name]) = some item

/-- A walk through some names of the directory at the end of `way`, which starts at a place. What a
directory holds comes right after it. -/
inductive Walk (t : FileTree) (place : Location) :
    Location → List String → List (Location × Item) → Prop
  | done {way : Location} : Walk t place way [] []
  | pass {way : Location} {name : String} {names : List String} {item : Item}
      {visits : List (Location × Item)} :
      t.at? (place ++ way ++ [name]) = some item → item ≠ .directory →
      Walk t place way names visits →
      Walk t place way (name :: names) ((way ++ [name], item) :: visits)
  | enter {way : Location} {name : String} {names inner : List String}
      {inside visits : List (Location × Item)} :
      t.at? (place ++ way ++ [name]) = some .directory →
      t.Lists (place ++ way ++ [name]) inner →
      Walk t place (way ++ [name]) inner inside →
      Walk t place way names visits →
      Walk t place way (name :: names) ((way ++ [name], .directory) :: (inside ++ visits))

section Walks

variable {t : FileTree} {place way names found : Location} {item : Item}
  {visits : List (Location × Item)}

theorem mem_items_of_at? {location : Location} (below : location ≠ [])
    (found : t.at? location = some item) : (location, item) ∈ t.items := by
  rw [at?, if_neg below, List.lookup_eq_some_iff] at found
  obtain ⟨before, after, whole, -⟩ := found
  rw [whole]
  simp

/-! ## There is a walk -/

theorem exists_lists (t : FileTree) (place : Location) : ∃ names, t.Lists place names := by
  let listed := (t.items.map (·.1.getLastD "")).filter fun name => (t.at? (place ++ [name])).isSome
  refine ⟨Text.NameSet.ofList listed, Text.NameSet.pairwise_ofList _, fun name => ?_⟩
  rw [Text.NameSet.mem_ofList, List.mem_filter, Option.isSome_iff_exists]
  constructor
  · rintro ⟨-, there⟩
    exact there
  · rintro ⟨item, found⟩
    refine ⟨List.mem_map.mpr ⟨_, mem_items_of_at? (by simp) found, by simp⟩, item, found⟩

theorem exists_walk_through (names : List String)
    (present : ∀ name ∈ names, ∃ item, t.at? (place ++ way ++ [name]) = some item)
    (deeper : ∀ name ∈ names, ∃ inner inside, t.Lists (place ++ way ++ [name]) inner ∧
      t.Walk place (way ++ [name]) inner inside) :
    ∃ visits, t.Walk place way names visits := by
  induction names with
  | nil => exact ⟨[], .done⟩
  | cons name names ih =>
    rw [List.forall_mem_cons] at present deeper
    obtain ⟨visits, walk⟩ := ih present.2 deeper.2
    obtain ⟨item, found⟩ := present.1
    obtain ⟨inner, inside, lists, onward⟩ := deeper.1
    cases item with
    | directory => exact ⟨_, .enter found lists onward walk⟩
    | file content => exact ⟨_, .pass found nofun walk⟩
    | link target => exact ⟨_, .pass found nofun walk⟩

/-- The places of the items bound how deep a walk can go. -/
theorem exists_walk_within (depth : Nat) (way : Location)
    (bound : ∀ entry ∈ t.items, entry.1.length ≤ (place ++ way).length + depth) :
    ∃ names visits, t.Lists (place ++ way) names ∧ t.Walk place way names visits := by
  induction depth generalizing way with
  | zero =>
    obtain ⟨names, lists⟩ := exists_lists t (place ++ way)
    have none : names = [] := by
      refine List.eq_nil_iff_forall_not_mem.mpr fun name listed => ?_
      obtain ⟨item, found⟩ := (lists.mem_iff name).mp listed
      have short := bound _ (mem_items_of_at? (by simp) found)
      simp at short
    subst none
    exact ⟨[], [], lists, .done⟩
  | succ depth ih =>
    obtain ⟨names, lists⟩ := exists_lists t (place ++ way)
    obtain ⟨visits, walk⟩ : ∃ visits, t.Walk place way names visits := by
      refine exists_walk_through names (fun name listed => (lists.mem_iff name).mp listed) ?_
      intro name _
      have within : ∀ entry ∈ t.items,
          entry.1.length ≤ (place ++ (way ++ [name])).length + depth := by
        intro entry listed
        have := bound entry listed
        simp only [List.length_append, List.length_singleton] at this ⊢
        omega
      obtain ⟨inner, inside, lists, onward⟩ := ih (way ++ [name]) within
      rw [← List.append_assoc] at lists
      exact ⟨inner, inside, lists, onward⟩
    exact ⟨names, visits, lists, walk⟩

theorem exists_walk (t : FileTree) (place : Location) :
    ∃ names visits, t.Lists place names ∧ t.Walk place [] names visits := by
  let depth := (t.items.map (·.1.length)).max?.getD 0
  have bound : ∀ entry ∈ t.items, entry.1.length ≤ (place ++ []).length + depth := by
    intro entry listed
    have most : entry.1.length ≤ depth :=
      List.le_max?_getD_of_mem (List.mem_map_of_mem (f := (·.1.length)) listed)
    omega
  simpa using exists_walk_within depth [] bound

/-! ## What a walk visits, and when -/

theorem liesBelow_cons_iff (name : String) :
    t.LiesBelow place (name :: names) item ↔
      names = [] ∧ t.at? (place ++ [name]) = some item ∨
        t.at? (place ++ [name]) = some .directory ∧ t.LiesBelow (place ++ [name]) names item := by
  constructor
  · intro below
    cases below with
    | entry found => exact .inl ⟨rfl, found⟩
    | inside found onward => exact .inr ⟨found, onward⟩
  · rintro (⟨rfl, found⟩ | ⟨found, onward⟩)
    · exact .entry found
    · exact .inside found onward

theorem LiesBelow.exists_cons (below : t.LiesBelow place names item) :
    ∃ name rest entry, names = name :: rest ∧ t.at? (place ++ [name]) = some entry := by
  cases below with
  | entry found => exact ⟨_, _, _, rfl, found⟩
  | inside found => exact ⟨_, _, _, rfl, found⟩

theorem Walk.mem_iff {names : List String} (walk : t.Walk place way names visits) :
    (found, item) ∈ visits ↔ ∃ name ∈ names, ∃ rest, found = way ++ name :: rest ∧
      t.LiesBelow (place ++ way) (name :: rest) item := by
  induction walk generalizing found item with
  | done => simp
  | @pass way name names kept visits there solid _ ih =>
    have first : (∃ rest, found = way ++ name :: rest ∧
        t.LiesBelow (place ++ way) (name :: rest) item) ↔ (found, item) = (way ++ [name], kept) := by
      simp only [liesBelow_cons_iff, there, Option.some.injEq, solid, false_and, or_false,
        Prod.mk.injEq]
      constructor
      · rintro ⟨_, rfl, rfl, rfl⟩
        exact ⟨rfl, rfl⟩
      · rintro ⟨rfl, rfl⟩
        exact ⟨[], rfl, rfl, rfl⟩
    rw [List.mem_cons, ih, List.exists_mem_cons_iff, first]
  | @enter way name names inner inside visits there lists _ _ innerIH ih =>
    have first : (∃ rest, found = way ++ name :: rest ∧
        t.LiesBelow (place ++ way) (name :: rest) item) ↔
        (found, item) = (way ++ [name], .directory) ∨ (found, item) ∈ inside := by
      rw [innerIH]
      simp only [liesBelow_cons_iff name, there, Option.some.injEq, true_and,
        Prod.mk.injEq]
      constructor
      · rintro ⟨_, rfl, ⟨rfl, rfl⟩ | below⟩
        · exact .inl ⟨rfl, rfl⟩
        · obtain ⟨other, rest, entry, rfl, listed⟩ := below.exists_cons
          refine .inr ⟨other, (lists.mem_iff other).mpr ⟨entry, listed⟩, rest, by simp, ?_⟩
          rwa [← List.append_assoc]
      · rintro (⟨rfl, rfl⟩ | ⟨other, _, rest, rfl, below⟩)
        · exact ⟨[], rfl, .inl ⟨rfl, rfl⟩⟩
        · rw [← List.append_assoc] at below
          exact ⟨other :: rest, by simp, .inr below⟩
    rw [List.mem_cons, List.mem_append, ih, List.exists_mem_cons_iff, first, or_assoc]

/-- Sorted by the names on the way: a directory comes before what it holds, and of two ways that part
the one with the smaller name comes first. -/
def Before (a b : Location × Item) : Prop := a.1 < b.1

theorem Walk.pairwise {names : List String} (walk : t.Walk place way names visits)
    (sorted : names.Pairwise (· < ·)) : visits.Pairwise Before := by
  induction walk with
  | done => exact .nil
  | @pass way name names kept visits there solid walk ih =>
    rw [List.pairwise_cons] at sorted
    refine List.pairwise_cons.mpr ⟨?_, ih sorted.2⟩
    rintro ⟨found, item⟩ listed
    obtain ⟨later, mem, rest, rfl, -⟩ := walk.mem_iff.mp listed
    exact List.Lex.append_left _ (.rel (sorted.1 later mem)) way
  | @enter way name names inner inside visits there lists onward walk innerIH ih =>
    rw [List.pairwise_cons] at sorted
    have after {rest : List String} {visit : Location × Item} (listed : visit ∈ visits) :
        way ++ name :: rest < visit.1 := by
      obtain ⟨found, item⟩ := visit
      obtain ⟨later, mem, rest, rfl, -⟩ := walk.mem_iff.mp listed
      exact List.Lex.append_left _ (.rel (sorted.1 later mem)) way
    have within {visit : Location × Item} (listed : visit ∈ inside) :
        ∃ other rest, visit.1 = way ++ name :: other :: rest := by
      obtain ⟨found, item⟩ := visit
      obtain ⟨other, mem, rest, rfl, -⟩ := onward.mem_iff.mp listed
      exact ⟨other, rest, by simp⟩
    refine List.pairwise_cons.mpr ⟨?_, List.pairwise_append.mpr ⟨?_, ih sorted.2, ?_⟩⟩
    · intro visit listed
      rcases List.mem_append.mp listed with inner | later
      · obtain ⟨other, rest, whole⟩ := within inner
        unfold Before
        rw [whole]
        exact List.Lex.append_left _ (.cons .nil) way
      · exact after later
    · exact innerIH lists.sorted
    · intro visit inner later listed
      obtain ⟨other, rest, whole⟩ := within inner
      unfold Before
      rw [whole]
      exact after listed

/-! ## What is below a place -/

theorem lex_iff (a b : Location) : List.lex a b (· < ·) = true ↔ a < b := by
  rw [List.lex_eq_decide_lex]
  simp only [decide_eq_true_eq]
  rfl

/-- An entry as it is seen from a place, if it lies below that. -/
def relativeTo (place : Location) (entry : Location × Item) : Option (Location × Item) :=
  if place.isPrefixOf entry.1 && entry.1 ≠ place then
    some (entry.1.drop place.length, entry.2)
  else none

theorem relativeTo_eq_some_iff {entry visit : Location × Item} :
    relativeTo place entry = some visit ↔ visit.1 ≠ [] ∧ entry = (place ++ visit.1, visit.2) := by
  obtain ⟨location, item⟩ := entry
  obtain ⟨names, kept⟩ := visit
  unfold relativeTo
  constructor
  · intro seen
    split at seen
    next inside =>
      simp only [Bool.and_eq_true, List.isPrefixOf_iff_prefix, decide_eq_true_eq] at inside
      obtain ⟨⟨rest, rfl⟩, further⟩ := inside
      simp only [List.drop_left, Option.some.injEq, Prod.mk.injEq] at seen
      obtain ⟨rfl, rfl⟩ := seen
      exact ⟨by simpa using further, rfl⟩
    next => cases seen
  · rintro ⟨some_name, same⟩
    cases same
    simp [some_name]

theorem below_eq (t : FileTree) (place : Location) :
    t.below place =
      (t.items.filterMap (relativeTo place)).mergeSort fun a b => !List.lex b.1 a.1 (· < ·) :=
  rfl

theorem mem_below :
    (names, item) ∈ t.below place ↔ names ≠ [] ∧ (place ++ names, item) ∈ t.items := by
  simp only [below_eq, List.mem_mergeSort, List.mem_filterMap, relativeTo_eq_some_iff]
  constructor
  · rintro ⟨entry, listed, some_name, rfl⟩
    exact ⟨some_name, listed⟩
  · rintro ⟨some_name, listed⟩
    exact ⟨_, listed, some_name, rfl⟩

theorem WellFormed.pairwise_ne_below (wf : t.WellFormed) (place : Location) :
    (t.below place).Pairwise fun a b => a.1 ≠ b.1 := by
  have distinct : t.items.Pairwise fun a b => a.1 ≠ b.1 := List.pairwise_map.mp wf.distinct
  refine ((List.mergeSort_perm _ _).pairwise_iff fun h => h.symm).mpr ?_
  refine distinct.filterMap (relativeTo place) fun a b apart x seen y also same => ?_
  rw [relativeTo_eq_some_iff] at seen also
  rw [seen.2, also.2, same] at apart
  exact apart rfl

theorem WellFormed.pairwise_below (wf : t.WellFormed) (place : Location) :
    (t.below place).Pairwise Before := by
  have sorted : (t.below place).Pairwise fun a b => (!List.lex b.1 a.1 (· < ·)) = true := by
    apply List.pairwise_mergeSort
    · intro a b c first second
      simp only [Bool.not_eq_true', ← Bool.not_eq_true, lex_iff, not_lt] at first second ⊢
      exact first.trans second
    · intro a b
      simp only [Bool.or_eq_true, Bool.not_eq_true', ← Bool.not_eq_true, lex_iff, not_lt]
      exact le_total a.1 b.1
  refine (sorted.and (wf.pairwise_ne_below place)).imp fun {a b} both => ?_
  have least : ¬b.1 < a.1 := by
    rw [← lex_iff]
    simpa using both.1
  exact lt_of_le_of_ne (not_lt.mp least) both.2

theorem WellFormed.at?_eq_some_iff (wf : t.WellFormed) {location : Location}
    (below : location ≠ []) : t.at? location = some item ↔ (location, item) ∈ t.items := by
  refine ⟨mem_items_of_at? below, fun listed => ?_⟩
  obtain ⟨before, after, whole⟩ := List.append_of_mem listed
  rw [at?, if_neg below, List.lookup_eq_some_iff]
  refine ⟨before, after, whole, fun entry earlier => ?_⟩
  have distinct := wf.distinct
  rw [whole, List.map_append, List.nodup_append] at distinct
  have apart := distinct.2.2 entry.1 (List.mem_map_of_mem earlier) location (by simp)
  simpa using apart.symm

/-- The way to an item passes directories only. -/
theorem WellFormed.isDirectoryAt_of_append (wf : t.WellFormed) {names : Location}
    (further : names ≠ []) (found : t.at? (place ++ names) = some item) :
    t.isDirectoryAt place = true := by
  induction names using List.reverseRecOn generalizing item with
  | nil => exact absurd rfl further
  | append_singleton names name ih =>
    obtain ⟨-, inside, -⟩ := wf.entered _ (mem_items_of_at? (by simp) found)
    rw [← List.append_assoc, List.dropLast_concat] at inside
    by_cases last : names = []
    · simpa [last] using inside
    · exact ih last (isDirectoryAt_iff.mp inside)

theorem WellFormed.liesBelow_iff (wf : t.WellFormed) :
    t.LiesBelow place names item ↔ names ≠ [] ∧ t.at? (place ++ names) = some item := by
  constructor
  · intro below
    induction below with
    | entry found => exact ⟨List.cons_ne_nil _ _, found⟩
    | inside _ _ ih => exact ⟨List.cons_ne_nil _ _, by simpa using ih.2⟩
  · rintro ⟨some_name, found⟩
    induction names generalizing place with
    | nil => exact absurd rfl some_name
    | cons name names ih =>
      by_cases last : names = []
      · subst last
        exact .entry found
      · have onward : t.at? (place ++ [name] ++ names) = some item := by simpa using found
        have inside := wf.isDirectoryAt_of_append last onward
        exact .inside (isDirectoryAt_iff.mp inside) (ih last onward)

theorem WellFormed.mem_below_iff (wf : t.WellFormed) :
    (names, item) ∈ t.below place ↔ t.LiesBelow place names item := by
  rw [mem_below, wf.liesBelow_iff]
  refine and_congr_right fun some_name => ?_
  rw [wf.at?_eq_some_iff (by simp [some_name])]

theorem Walk.mem_iff_liesBelow {names : List String} (walk : t.Walk place [] names visits)
    (lists : t.Lists place names) : (found, item) ∈ visits ↔ t.LiesBelow place found item := by
  rw [walk.mem_iff, List.append_nil]
  constructor
  · rintro ⟨name, _, rest, rfl, below⟩
    exact below
  · intro below
    obtain ⟨name, rest, entry, rfl, listed⟩ := below.exists_cons
    exact ⟨name, (lists.mem_iff name).mpr ⟨entry, listed⟩, rest, rfl, below⟩

instance : Std.Irrefl Before := ⟨fun visit => lt_irrefl visit.1⟩

instance : Std.Antisymm Before := ⟨fun _ _ first second => absurd first second.not_gt⟩

/-- Everything below a place, sorted by the names on the way, is what a walk visits. -/
theorem WellFormed.exists_walk_below (wf : t.WellFormed) (place : Location) :
    ∃ names, t.Lists place names ∧ t.Walk place [] names (t.below place) := by
  obtain ⟨names, visits, lists, walk⟩ := exists_walk t place
  have same : visits = t.below place := by
    refine (walk.pairwise lists.sorted).eq_of_mem_iff (wf.pairwise_below place) fun visit => ?_
    rw [walk.mem_iff_liesBelow lists, wf.mem_below_iff]
  rw [← same]
  exact ⟨names, lists, walk⟩

end Walks

end ClassCoupling.FileTree
