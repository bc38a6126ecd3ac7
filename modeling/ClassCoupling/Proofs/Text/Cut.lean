import ClassCoupling.Text.Cut
import Mathlib.Tactic.Common

/-!
# Cutting text and putting it together

What a cut gives back are the parts around a separator. Cutting at the first separator again and
again gives the parts that cutting everywhere gives at once.
-/

namespace ClassCoupling.Text

universe u
variable {α : Type u} [DecidableEq α] {a : α} {xs l r : List α}

theorem eq_append_of_cutLast (h : cutLast a xs = some (l, r)) : xs = l ++ a :: r := by
  induction xs generalizing l with
  | nil => simp [cutLast] at h
  | cons x xs ih =>
    rw [cutLast] at h
    split at h
    next l' r' later =>
      simp only [Option.some.injEq, Prod.mk.injEq] at h
      obtain ⟨rfl, rfl⟩ := h
      rw [List.cons_append, ← ih later]
    next =>
      split at h
      next same =>
        simp only [Option.some.injEq, Prod.mk.injEq] at h
        obtain ⟨rfl, rfl⟩ := h
        rw [same, List.nil_append]
      next => cases h

theorem cutLast_eq_none (absent : a ∉ xs) : cutLast a xs = none := by
  induction xs with
  | nil => rfl
  | cons x xs ih =>
    rw [List.mem_cons, not_or] at absent
    simp [cutLast, ih absent.2, Ne.symm absent.1]

theorem cutLast_append (absent : a ∉ r) : cutLast a (l ++ a :: r) = some (l, r) := by
  induction l with
  | nil => simp [cutLast, cutLast_eq_none absent]
  | cons x l ih => simp [cutLast, ih]

theorem length_lt_of_atLast? {c : Char} {s before after : String}
    (h : atLast? c s = some (before, after)) : before.length < s.length := by
  obtain ⟨⟨l, r⟩, cut, parts⟩ := Option.map_eq_some_iff.mp h
  have whole := congrArg List.length (eq_append_of_cutLast cut)
  simp only [Prod.mk.injEq] at parts
  rw [← parts.1, ← String.length_toList, ← String.length_toList, whole, String.toList_ofList,
    List.length_append, List.length_cons]
  omega

theorem not_mem_of_cutFirst (h : cutFirst a xs = some (l, r)) : a ∉ l := by
  induction xs generalizing l with
  | nil => simp [cutFirst] at h
  | cons x xs ih =>
    by_cases same : x = a
    · simp only [cutFirst, same, if_true, Option.some.injEq, Prod.mk.injEq] at h
      rw [← h.1]
      exact List.not_mem_nil
    · simp only [cutFirst, same, if_false, Option.map_eq_some_iff, Prod.mk.injEq] at h
      obtain ⟨⟨l, _⟩, cut, rfl, rfl⟩ := h
      rw [List.mem_cons, not_or]
      exact ⟨Ne.symm same, ih cut⟩

theorem cutFirst_eq_none_iff : cutFirst a xs = none ↔ a ∉ xs := by
  induction xs with
  | nil => simp [cutFirst]
  | cons x xs ih =>
    by_cases same : x = a
    · simp [cutFirst, same]
    · simp [cutFirst, same, ih, Ne.symm same]

theorem cutFirst_append (absent : a ∉ l) : cutFirst a (l ++ a :: r) = some (l, r) := by
  induction l with
  | nil => simp [cutFirst]
  | cons x l ih =>
    rw [List.mem_cons, not_or] at absent
    simp [cutFirst, Ne.symm absent.1, ih absent.2]

/-! ## Cutting everywhere -/

theorem splitOn_of_cutFirst_eq_some (h : cutFirst a xs = some (l, r)) :
    xs.splitOn a = l :: r.splitOn a := by
  rw [eq_append_of_cutFirst h]
  apply List.splitOnP_append_cons_of_forall_mem
  · intro x inside
    have ne : x ≠ a := fun same => not_mem_of_cutFirst h (same ▸ inside)
    simpa using ne
  · simp

theorem splitOn_of_cutFirst_eq_none (h : cutFirst a xs = none) : xs.splitOn a = [xs] := by
  have absent := cutFirst_eq_none_iff.mp h
  have alone : ∀ part ∈ [xs], a ∉ part := by simpa using absent
  have whole := List.splitOn_intercalate a alone (List.cons_ne_nil _ _)
  simpa using whole

theorem not_mem_of_mem_splitOn {xs part : List α} (h : part ∈ xs.splitOn a) : a ∉ part := by
  cases cut : cutFirst a xs with
  | none =>
    rw [splitOn_of_cutFirst_eq_none cut, List.mem_singleton] at h
    rw [h]
    exact cutFirst_eq_none_iff.mp cut
  | some parts =>
    obtain ⟨l, r⟩ := parts
    have shorter : r.length < xs.length := by
      rw [eq_append_of_cutFirst cut, List.length_append, List.length_cons]
      omega
    rw [splitOn_of_cutFirst_eq_some cut, List.mem_cons] at h
    cases h with
    | inl first =>
      rw [first]
      exact not_mem_of_cutFirst cut
    | inr later => exact not_mem_of_mem_splitOn later
termination_by xs.length

section Split

variable {c : Char} {s s' part : String}

theorem split_ne_nil (c : Char) (s : String) : split c s ≠ [] := by
  simp [split, List.splitOn_ne_nil]

theorem split_of_mem_split (h : part ∈ split c s) : split c part = [part] := by
  obtain ⟨cs, listed, rfl⟩ := List.mem_map.mp h
  have absent := not_mem_of_mem_splitOn listed
  rw [split, String.toList_ofList, splitOn_of_cutFirst_eq_none (cutFirst_eq_none_iff.mpr absent)]
  rfl

theorem split_injective (h : split c s = split c s') : s = s' := by
  have parts : s.toList.splitOn c = s'.toList.splitOn c :=
    (List.map_inj_right fun _ _ => String.ofList_inj.mp).mp h
  have whole := congrArg (List.intercalate [c]) parts
  rw [List.intercalate_splitOn, List.intercalate_splitOn] at whole
  exact String.toList_inj.mp whole

theorem join_split (c : Char) (s : String) : join (String.singleton c) (split c s) = s := by
  rw [join, ← String.toList_inj, String.toList_intercalate, split, String.toList_singleton]
  simp [Function.comp_def]

theorem mem_join {separator : String} {parts : List String}
    (mem : c ∈ (join separator parts).toList) :
    c ∈ separator.toList ∨ ∃ part ∈ parts, c ∈ part.toList := by
  induction parts with
  | nil => exact absurd mem (by simp [join])
  | cons first parts ih =>
    rcases eq_or_ne parts [] with rfl | more
    · exact .inr ⟨first, List.mem_cons_self, by simpa [join] using mem⟩
    · rw [join, String.intercalate_cons_of_ne_nil more, String.toList_append, String.toList_append,
        List.mem_append, List.mem_append] at mem
      rcases mem with (front | between) | rest
      · exact .inr ⟨first, List.mem_cons_self, front⟩
      · exact .inl between
      · refine (ih rest).imp_right fun ⟨part, listed, inside⟩ => ?_
        exact ⟨part, List.mem_cons_of_mem _ listed, inside⟩

theorem mem_join_of_mem {separator : String} {parts : List String} (listed : part ∈ parts)
    (inside : c ∈ part.toList) : c ∈ (join separator parts).toList := by
  induction parts with
  | nil => cases listed
  | cons first parts ih =>
    rcases eq_or_ne parts [] with rfl | more
    · rw [List.mem_singleton] at listed
      simpa [join, ← listed] using inside
    · rw [join, String.intercalate_cons_of_ne_nil more, String.toList_append, String.toList_append,
        List.mem_append, List.mem_append]
      rcases List.mem_cons.mp listed with rfl | later
      · exact .inl (.inl inside)
      · exact .inr (ih later)

theorem split_append (c : Char) (before after : String) :
    split c (before ++ String.singleton c ++ after) = split c before ++ split c after := by
  have parts : (before.toList ++ c :: after.toList).splitOn c =
      before.toList.splitOn c ++ after.toList.splitOn c :=
    List.splitOnP_append_cons _ _ (beq_self_eq_true c)
  simp only [split, String.toList_append, String.toList_singleton, List.append_assoc,
    List.singleton_append, parts, List.map_append]

theorem split_join {parts : List String} (some_part : parts ≠ [])
    (absent : ∀ part ∈ parts, c ∉ part.toList) :
    split c (join (String.singleton c) parts) = parts := by
  have alone : ∀ part ∈ parts.map String.toList, c ∉ part := by simpa using absent
  have cut := List.splitOn_intercalate c alone (by simpa using some_part)
  rw [split, join, String.toList_intercalate, String.toList_singleton, cut]
  simp [Function.comp_def]

theorem exists_split_eq {parts : List String} (some_part : parts ≠ [])
    (absent : ∀ part ∈ parts, c ∉ part.toList) : ∃ whole, split c whole = parts :=
  ⟨_, split_join some_part absent⟩

theorem not_mem_of_mem_split (h : part ∈ split c s) : c ∉ part.toList := by
  obtain ⟨cs, cut, rfl⟩ := List.mem_map.mp h
  rw [String.toList_ofList]
  exact not_mem_of_mem_splitOn cut

theorem mem_of_mem_split {x : Char} (h : part ∈ split c s) (inside : x ∈ part.toList) :
    x ∈ s.toList := by
  rw [← join_split c s]
  exact mem_join_of_mem h inside

/-- A text whose parts begin with those of another goes on after a separator. -/
theorem exists_append_of_split {whole before : String} {more : List String}
    (parts : split c whole = split c before ++ more) (some_more : more ≠ []) :
    ∃ after, whole = before ++ String.singleton c ++ after := by
  have absent : ∀ part ∈ more, c ∉ part.toList := by
    intro part listed
    have inside : part ∈ split c whole := by
      rw [parts]
      exact List.mem_append_right _ listed
    exact not_mem_of_mem_split inside
  obtain ⟨after, rest⟩ := exists_split_eq some_more absent
  refine ⟨after, split_injective (c := c) ?_⟩
  rw [split_append, rest, parts]

theorem atFirst?_append {before : String} (after : String) (absent : c ∉ before.toList) :
    atFirst? c (before ++ String.singleton c ++ after) = some (before, after) := by
  simp [atFirst?, cutFirst_append absent]

theorem atLast?_append (before : String) {after : String} (absent : c ∉ after.toList) :
    atLast? c (before ++ String.singleton c ++ after) = some (before, after) := by
  simp [atLast?, cutLast_append absent]

theorem eq_append_of_atLast? {before after : String} (h : atLast? c s = some (before, after)) :
    s = before ++ String.singleton c ++ after := by
  obtain ⟨⟨l, r⟩, cut, parts⟩ := Option.map_eq_some_iff.mp h
  cases parts
  simp [← String.toList_inj, eq_append_of_cutLast cut]

end Split

/-! ## Beginnings and ends -/

section Ends

variable {head tail text : String}

theorem isPrefixOf_iff_append : l.isPrefixOf xs = true ↔ ∃ back, xs = l ++ back := by
  simp [List.prefix_iff_exists_eq_append]

theorem isSuffixOf_iff_append : r.isSuffixOf xs = true ↔ ∃ front, xs = front ++ r := by
  simp [List.suffix_iff_exists_eq_append]

theorem startsWith_iff : startsWith head text = true ↔ ∃ back, text = head ++ back := by
  rw [startsWith, isPrefixOf_iff_append]
  constructor
  · intro begins
    obtain ⟨back, whole⟩ := begins
    exact ⟨.ofList back, by simp [← String.toList_inj, whole]⟩
  · intro begins
    obtain ⟨back, rfl⟩ := begins
    exact ⟨back.toList, String.toList_append⟩

theorem endsWith_iff : endsWith tail text = true ↔ ∃ front, text = front ++ tail := by
  rw [endsWith, isSuffixOf_iff_append]
  constructor
  · intro ends
    obtain ⟨front, whole⟩ := ends
    exact ⟨.ofList front, by simp [← String.toList_inj, whole]⟩
  · intro ends
    obtain ⟨front, rfl⟩ := ends
    exact ⟨front.toList, String.toList_append⟩

end Ends

/-! ## Dotted names -/

/-- No part between the dots is empty. -/
def Segmented (s : String) : Prop := ∀ segment ∈ split '.' s, segment ≠ ""

instance (s : String) : Decidable (Segmented s) :=
  inferInstanceAs (Decidable (∀ segment ∈ split '.' s, segment ≠ ""))

theorem Segmented.append {before after : String} (first : Segmented before)
    (second : Segmented after) : Segmented (before ++ "." ++ after) := by
  intro segment part
  have parts := split_append '.' before after
  change split '.' (before ++ "." ++ after) = _ at parts
  rw [parts, List.mem_append] at part
  exact part.elim (first segment) (second segment)

theorem Segmented.ne_empty {s : String} (segmented : Segmented s) : s ≠ "" := by
  intro empty
  have blank : "" ∈ split '.' s := by
    rw [empty]
    decide
  exact segmented "" blank rfl

end ClassCoupling.Text
