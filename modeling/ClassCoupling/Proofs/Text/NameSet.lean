import ClassCoupling.Text.NameSet
import Mathlib.Data.String.Basic

/-!
# Members and order of name sets

Insertion adds one name and keeps the set strictly increasing, so that a set made of a list has the
members of the list, each once and in order.
-/

namespace ClassCoupling.Text.NameSet

variable {set : NameSet} {name other : String} {names : List String}

@[simp] theorem mem_insert : other ∈ set.insert name ↔ other = name ∨ other ∈ set := by
  induction set with
  | nil => simp [insert]
  | cons x xs ih =>
    unfold insert
    split
    · exact List.mem_cons
    · split
      next same => simp [same]
      next => simp only [List.mem_cons, ih, or_left_comm]

theorem pairwise_insert (increasing : set.Pairwise (· < ·)) :
    (set.insert name).Pairwise (· < ·) := by
  induction set with
  | nil => exact List.pairwise_singleton _ _
  | cons x xs ih =>
    obtain ⟨first, others⟩ := List.pairwise_cons.mp increasing
    unfold insert
    split
    next before =>
      apply List.pairwise_cons.mpr
      refine ⟨?_, increasing⟩
      intro other member
      cases List.mem_cons.mp member with
      | inl same => exact same ▸ before
      | inr later => exact before.trans (first other later)
    next notBefore =>
      split
      next => exact increasing
      next different =>
        apply List.pairwise_cons.mpr
        refine ⟨?_, ih others⟩
        intro other member
        cases mem_insert.mp member with
        | inl same => exact same ▸ lt_of_le_of_ne (not_lt.mp notBefore) (Ne.symm different)
        | inr later => exact first other later

theorem insert_eq_self (increasing : set.Pairwise (· < ·)) (known : name ∈ set) :
    set.insert name = set := by
  induction set with
  | nil => cases known
  | cons x xs ih =>
    obtain ⟨first, others⟩ := List.pairwise_cons.mp increasing
    cases List.mem_cons.mp known with
    | inl same => simp [insert, same]
    | inr later =>
      have after : x < name := first name later
      simp [insert, after.not_gt, after.ne', ih others later]

theorem foldl_insert (set : NameSet) (names : List String) (increasing : set.Pairwise (· < ·)) :
    (names.foldl (fun set name => set.insert name) set).Pairwise (· < ·) ∧
      ∀ name, name ∈ names.foldl (fun set name => set.insert name) set ↔
        name ∈ set ∨ name ∈ names := by
  induction names generalizing set with
  | nil => exact ⟨increasing, fun _ => by simp⟩
  | cons first names ih =>
    obtain ⟨sorted, members⟩ := ih (set.insert first) (pairwise_insert increasing)
    refine ⟨sorted, fun name => ?_⟩
    rw [List.foldl_cons, members name, mem_insert, List.mem_cons, or_assoc, or_left_comm]

theorem pairwise_ofList (names : List String) : (ofList names).Pairwise (· < ·) :=
  (foldl_insert [] names .nil).1

@[simp] theorem mem_ofList : name ∈ ofList names ↔ name ∈ names := by
  rw [ofList, (foldl_insert [] names .nil).2 name]
  simp

theorem nodup_ofList (names : List String) : (ofList names).Nodup :=
  (pairwise_ofList names).imp ne_of_lt

theorem length_ofList (nodup : names.Nodup) : (ofList names).length = names.length := by
  apply List.Perm.length_eq
  apply (List.perm_ext_iff_of_nodup (nodup_ofList names) nodup).mpr
  intro name
  exact mem_ofList

/-! ## Leaving names out -/

section Filter

variable {keep : String → Bool}

theorem filter_insert_of_neg (dropped : keep name = false) :
    (set.insert name).filter keep = set.filter keep := by
  induction set with
  | nil => simp [insert, dropped]
  | cons x xs ih =>
    unfold insert
    split
    · simp [dropped]
    · split
      · rfl
      · rw [List.filter_cons, List.filter_cons, ih]

theorem insert_eq_cons (before : ∀ other ∈ set, name < other) : set.insert name = name :: set := by
  cases set with
  | nil => rfl
  | cons x xs => exact if_pos (before x List.mem_cons_self)

theorem filter_insert_of_pos (increasing : set.Pairwise (· < ·)) (kept : keep name = true) :
    (set.insert name).filter keep = insert name (set.filter keep) := by
  induction set with
  | nil => simp [insert, kept]
  | cons x xs ih =>
    obtain ⟨first, others⟩ := List.pairwise_cons.mp increasing
    rcases lt_trichotomy name x with before | same | after
    · have all : ∀ other ∈ x :: xs, name < other :=
        List.forall_mem_cons.mpr ⟨before, fun other later => before.trans (first other later)⟩
      rw [insert_eq_cons all, List.filter_cons_of_pos kept, insert_eq_cons]
      exact fun other listed => all other (List.mem_filter.mp listed).1
    · subst same
      simp [insert, kept]
    · have step : ∀ ys, insert name (x :: ys) = x :: insert name ys := by
        intro ys
        simp [insert, after.not_gt, after.ne']
      rw [step, List.filter_cons, List.filter_cons, ih others]
      split
      · rw [step]
      · rfl

end Filter

end ClassCoupling.Text.NameSet
