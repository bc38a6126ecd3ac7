import ClassCoupling.Proofs.Snapshot.Editing
import ClassCoupling.Proofs.Snapshot.Staleness

/-!
# Staleness of a union

A union bears the latest generation among its parts. If these were taken while a tree was worked on,
the union is stale only if all of them are: one that is current lends its generation to whatever the
others still hold.
-/

namespace ClassCoupling.Snapshot

open Tree

variable {s : Snapshot} {parts : List Snapshot}

/-! ## Snapshots along a run -/

section Run

variable {actions : List Action}

/-- Taken after the first of the actions done to an empty tree, however many. -/
def TakenDuring (actions : List Action) (s : Snapshot) : Prop :=
  ∃ earlier, earlier <+: actions ∧ s = ofTree (earlier.foldl act .empty)

theorem TakenDuring.exists_changes (taken : TakenDuring actions s) :
    ∃ (t : Tree) (changes : List Change), t.Reachable ∧ s = ofTree t ∧
      actions.foldl act .empty = changes.foldl perform t := by
  obtain ⟨earlier, ⟨later, rfl⟩, rfl⟩ := taken
  obtain ⟨before, first⟩ := exists_changes_act .empty earlier
  obtain ⟨after, rest⟩ := exists_changes_act (earlier.foldl act .empty) later
  refine ⟨_, after, ?_, rfl, ?_⟩
  · rw [first]
    exact Reachable.empty.run before
  · rw [List.foldl_append, rest]

theorem TakenDuring.generation_le (taken : TakenDuring actions s) :
    s.generation ≤ (actions.foldl act .empty).generation := by
  obtain ⟨t, changes, reached, rfl, run⟩ := taken.exists_changes
  rw [run, generation_ofTree]
  exact reached.generation_le changes

theorem TakenDuring.eq_ofTree (taken : TakenDuring actions s)
    (fresh : s.isStale (actions.foldl act .empty) = false) :
    s = ofTree (actions.foldl act .empty) := by
  obtain ⟨t, changes, reached, rfl, run⟩ := taken.exists_changes
  rw [run] at fresh ⊢
  have same := isStale_ofTree.mp fresh
  have alike := reached.alike_of_generation_eq changes same
  rw [alike.ofTree reached.wellFormed.toContained, same, dated_ofTree]

end Run

/-! ## What a union holds -/

theorem exists_latest (nonempty : parts ≠ []) :
    ∃ part ∈ parts, part.generation = (union parts).generation ∧
      ∀ other ∈ parts, other.generation ≤ part.generation := by
  cases parts with
  | nil => exact absurd rfl nonempty
  | cons first rest =>
    have latest : ((first :: rest).map (·.generation)).max? =
        some (union (first :: rest)).generation := by
      rw [List.map_cons, List.max?_cons']
      simp [union_eq_build, build]
    obtain ⟨listed, largest⟩ := List.max?_eq_some_iff.mp latest
    obtain ⟨part, among, bears⟩ := List.mem_map.mp listed
    refine ⟨part, among, bears, ?_⟩
    intro other mem
    rw [bears]
    exact largest _ (List.mem_map_of_mem mem)

theorem Consistent.arc_union {u v : NodeId} (consistent : s.Consistent) (part : s ∈ parts)
    (arc : s.Arc u v) : (union parts).Arc u v := by
  have source : u ∈ (union parts).nodes := mem_nodes_union.mpr ⟨s, part, source_mem arc⟩
  have target : v ∈ (union parts).nodes := mem_nodes_union.mpr ⟨s, part, consistent.target_mem arc⟩
  rw [union_eq_build] at source target ⊢
  exact mem_nodeArcs_build.mpr
    ⟨List.mem_flatMap_of_mem part arc, mem_nodes_build.mp source, mem_nodes_build.mp target⟩

theorem flatMap_subset_of_forall_eq {α β : Type} {xs : List α} {x : α} (same : ∀ y ∈ xs, y = x)
    (f : α → List β) : xs.flatMap f ⊆ f x := by
  intro b mem
  obtain ⟨y, listed, held⟩ := List.mem_flatMap.mp mem
  rwa [same y listed] at held

theorem union_of_forall_eq (nonempty : parts ≠ []) (same : ∀ part ∈ parts, part = s) :
    union parts = s.restrict s.entries := by
  obtain ⟨part, among, bears, -⟩ := exists_latest nonempty
  cases parts with
  | nil => exact absurd rfl nonempty
  | cons first rest =>
    obtain ⟨rfl, again⟩ := List.forall_mem_cons.mp same
    rw [same part among] at bears
    rw [restrict_eq_build, bears, union_eq_build, List.flatMap_cons, List.flatMap_cons]
    apply build_append_of_subset
    · exact List.map_subset _ (flatMap_subset_of_forall_eq again _)
    · exact flatMap_subset_of_forall_eq again _

/-! ## The verdict on a union -/

/-- The union is stale if all its parts are, and not if only some are. While it is not stale it has
everything the tree shows now; that it has nothing else is certain only if no part is stale. -/
theorem union_is_stale_iff_all_parts_are {actions : List Action} (nonempty : parts ≠ [])
    (taken : ∀ part ∈ parts, TakenDuring actions part) :
    let now := actions.foldl act .empty
    ((union parts).isStale now = true ↔ ∀ part ∈ parts, part.isStale now = true) ∧
    ((union parts).isStale now = false →
      (∀ x ∈ (ofTree now).nodes, x ∈ (union parts).nodes) ∧
      ∀ u v, (ofTree now).Arc u v → (union parts).Arc u v) ∧
    ((∀ part ∈ parts, part.isStale now = false) → union parts = ofTree now) := by
  intro now
  obtain ⟨latest, among, bears, largest⟩ := exists_latest nonempty
  have verdict : (union parts).isStale now = latest.isStale now := by
    rw [isStale, isStale, bears]
  refine ⟨?_, ?_, ?_⟩
  · rw [verdict]
    constructor
    · intro stale part mem
      -- The latest part has fallen behind, so every other one has.
      have behind : latest.generation < now.generation :=
        Nat.lt_of_le_of_ne (taken latest among).generation_le (of_decide_eq_true stale)
      exact decide_eq_true (Nat.ne_of_lt ((largest part mem).trans_lt behind))
    · intro stale
      exact stale latest among
  · intro fresh
    have current := (taken latest among).eq_ofTree (verdict ▸ fresh)
    have shown : ofTree now ∈ parts := current ▸ among
    refine ⟨?_, ?_⟩
    · intro x listed
      exact mem_nodes_union.mpr ⟨_, shown, listed⟩
    · intro u v arc
      exact (indexed_ofTree now).arc_union shown arc
  · intro fresh
    have same : ∀ part ∈ parts, part = ofTree now := by
      intro part mem
      exact (taken part mem).eq_ofTree (fresh part mem)
    rw [union_of_forall_eq nonempty same, restrict_ofTree]

/-- A package that is shown as one node gains its second unit. -/
def growing : List Action :=
  [.change (.createLeaf root "p.A"), .change (.setMode 1 .collapsed),
    .change (.createLeaf root "p.B")]

def grown : Tree := growing.foldl act .empty

/-- What the growing tree shows after so many actions. -/
def moment (k : Nat) : Snapshot := ofTree ((growing.take k).foldl act .empty)

theorem takenDuring_moment (k : Nat) : TakenDuring growing (moment k) :=
  ⟨growing.take k, List.take_prefix k growing, rfl⟩

theorem union_is_stale_iff_all_parts_are_growing :
    (∀ k, TakenDuring growing (moment k)) ∧
    (moment 1).isStale grown = true ∧ (moment 2).isStale grown = true ∧
    (moment 3).isStale grown = false ∧ (union [moment 2, moment 1]).isStale grown = true ∧
    (union [moment 1, moment 3]).isStale grown = false ∧
    (∀ x ∈ (ofTree grown).nodes, x ∈ (union [moment 1, moment 3]).nodes) ∧
    union [moment 3, moment 3] = ofTree grown := by
  have taken : ∀ ks : List Nat, ∀ part ∈ ks.map moment, TakenDuring growing part := by
    intro ks part mem
    obtain ⟨k, -, rfl⟩ := List.mem_map.mp mem
    exact takenDuring_moment k
  have first : (moment 1).isStale grown = true := by with_unfolding_all rfl
  have second : (moment 2).isStale grown = true := by with_unfolding_all rfl
  have third : (moment 3).isStale grown = false := by with_unfolding_all rfl
  have mixed : (union [moment 1, moment 3]).isStale grown = false := by with_unfolding_all rfl
  have stale : ∀ part ∈ [moment 2, moment 1], part.isStale grown = true := by
    simp [first, second]
  have fresh : ∀ part ∈ [moment 3, moment 3], part.isStale grown = false := by
    simp [third]
  exact ⟨takenDuring_moment, first, second, third,
    (union_is_stale_iff_all_parts_are (by simp) (taken [2, 1])).1.mpr stale, mixed,
    ((union_is_stale_iff_all_parts_are (by simp) (taken [1, 3])).2.1 mixed).1,
    (union_is_stale_iff_all_parts_are (by simp) (taken [3, 3])).2.2 fresh⟩

/-- The package counts one unit in the stale part and two in the current one; their union counts one
and passes for current. -/
theorem current_part_hides_stale_part :
    (∀ part ∈ [moment 2, moment 3], TakenDuring growing part) ∧
    (moment 2).isStale grown = true ∧ (union [moment 2, moment 3]).isStale grown = false ∧
    (ofTree grown).entries = [⟨1, 0, 2, [], []⟩] ∧
    (union [moment 2, moment 3]).entries = [⟨1, 0, 1, [], []⟩] := by
  refine ⟨?_, by with_unfolding_all rfl, by with_unfolding_all rfl, by with_unfolding_all rfl,
    by with_unfolding_all rfl⟩
  intro part mem
  obtain rfl | rfl := by simpa using mem
  · exact takenDuring_moment 2
  · exact takenDuring_moment 3

end ClassCoupling.Snapshot
