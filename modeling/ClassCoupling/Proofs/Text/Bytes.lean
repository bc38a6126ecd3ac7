import Mathlib.Data.List.Infix

/-!
# Byte positions in a text

A text is stored as UTF-8, and its places can be counted in bytes. A text can be cut at a byte
position only if the position lies in the text and between two characters. Where the bytes of one
text stand inside another, both of their ends are such positions.
-/

namespace ClassCoupling.Text

open String

variable {text part before middle after : String} {start stop pos : Nat}

/-! ## Cutting at byte positions -/

theorem extract_append (before middle after : String) :
    (before ++ middle ++ after).toByteArray.extract before.utf8ByteSize
      (before.utf8ByteSize + middle.utf8ByteSize) = middle.toByteArray := by
  rw [append_assoc, toByteArray_append, ← size_toByteArray, ← size_toByteArray]
  rw [← Nat.add_zero before.toByteArray.size, Nat.add_assoc, ByteArray.extract_append_size_add,
    Nat.zero_add, toByteArray_append, ByteArray.extract_append_eq_left rfl]

/-- Positions between which a text can be cut out. -/
def IsRange (text : String) (start stop : Nat) : Prop :=
  start ≤ stop ∧ Pos.Raw.IsValid text ⟨start⟩ ∧ Pos.Raw.IsValid text ⟨stop⟩

instance (text : String) (start stop : Nat) : Decidable (IsRange text start stop) :=
  inferInstanceAs (Decidable (_ ∧ _ ∧ _))

theorem IsRange.isValidUTF8 (range : IsRange text start stop) :
    (text.toByteArray.extract start stop).IsValidUTF8 :=
  (Pos.Raw.isValidUTF8_extract_iff ⟨start⟩ ⟨stop⟩ range.1 range.2.2.le_rawEndPos).mpr (.inr range.2)

/-- The text between two byte positions. There is none if one of them lies outside of the text or
inside a character, or if they come in the wrong order. -/
def slice? (text : String) (start stop : Nat) : Option String :=
  if range : IsRange text start stop then
    some ⟨text.toByteArray.extract start stop, range.isValidUTF8⟩
  else none

theorem slice?_append (before middle after : String) :
    slice? (before ++ middle ++ after) before.utf8ByteSize
      (before.utf8ByteSize + middle.utf8ByteSize) = some middle := by
  have range : IsRange (before ++ middle ++ after) before.utf8ByteSize
      (before.utf8ByteSize + middle.utf8ByteSize) := by
    refine ⟨Nat.le_add_right _ _, ?_, ?_⟩
    · exact Pos.Raw.isValid_iff_exists_append.mpr ⟨before, middle ++ after, append_assoc, rfl⟩
    · refine Pos.Raw.isValid_iff_exists_append.mpr ⟨before ++ middle, after, rfl, ?_⟩
      rw [Pos.Raw.ext_iff, byteIdx_rawEndPos, utf8ByteSize_append]
  rw [slice?, dif_pos range, Option.some.injEq, ← toByteArray_inj]
  exact extract_append before middle after

/-! ## Comparing fronts -/

section Fronts

variable {front front' back back' : String} (same : front ++ back = front' ++ back')
include same

/-- Of two fronts of one text, one goes on where the other ends. -/
theorem exists_append_of_fronts :
    (∃ more, front' = front ++ more) ∨ ∃ more, front = front' ++ more := by
  have lists : front.toList ++ back.toList = front'.toList ++ back'.toList := by
    rw [← toList_append, same, toList_append]
  have goes_on : ∀ {one other : String}, one.toList <+: other.toList →
      ∃ more, other = one ++ more := by
    intro one other start
    obtain ⟨more, longer⟩ := start
    exact ⟨ofList more, by rw [← toList_inj, toList_append, toList_ofList, longer]⟩
  have start : front.toList <+: front'.toList ++ back'.toList := ⟨back.toList, lists⟩
  exact (List.prefix_or_prefix_of_prefix start ⟨back'.toList, rfl⟩).imp goes_on goes_on

theorem utf8ByteSize_le_of_length_le (shorter : front.toList.length ≤ front'.toList.length) :
    front.utf8ByteSize ≤ front'.utf8ByteSize := by
  rcases exists_append_of_fronts same with ⟨more, rfl⟩ | ⟨more, rfl⟩
  · rw [utf8ByteSize_append]
    exact Nat.le_add_right _ _
  · rw [toList_append, List.length_append] at shorter
    have none : more = "" := by
      rw [← toList_inj, toList_empty, ← List.length_eq_zero_iff]
      omega
    rw [none, append_empty]

theorem exists_append_of_utf8ByteSize_le (shorter : front.utf8ByteSize ≤ front'.utf8ByteSize) :
    ∃ more, front' = front ++ more := by
  rcases exists_append_of_fronts same with longer | ⟨more, rfl⟩
  · exact longer
  · rw [utf8ByteSize_append] at shorter
    have none : more = "" := by
      rw [← utf8ByteSize_eq_zero_iff]
      omega
    exact ⟨"", by rw [none, append_empty, append_empty]⟩

end Fronts

/-! ## Searching for bytes -/

/-- The first position at which the bytes of `part` stand in the text. -/
def findBytes? (part text : String) : Option Nat :=
  (List.range (text.utf8ByteSize + 1)).find? fun pos =>
    (text.toByteArray.extract pos (pos + part.utf8ByteSize)).data = part.toByteArray.data

/-- No character begins inside another one, so what stands there as bytes stands there as text. -/
theorem exists_append_of_extract (nonempty : part ≠ "")
    (bytes : text.toByteArray.extract pos (pos + part.utf8ByteSize) = part.toByteArray) :
    ∃ before after, text = before ++ part ++ after ∧ before.utf8ByteSize = pos := by
  have long : 0 < part.utf8ByteSize := by
    rw [Nat.pos_iff_ne_zero, ne_eq, utf8ByteSize_eq_zero_iff]
    exact nonempty
  have inside : pos + part.utf8ByteSize ≤ text.utf8ByteSize := by
    have sizes := congrArg ByteArray.size bytes
    rw [ByteArray.size_extract, size_toByteArray, size_toByteArray] at sizes
    omega
  have valid : (text.toByteArray.extract pos (pos + part.utf8ByteSize)).IsValidUTF8 := by
    rw [bytes]
    exact part.isValidUTF8
  rcases (Pos.Raw.isValidUTF8_extract_iff ⟨pos⟩ ⟨pos + part.utf8ByteSize⟩ (Nat.le_add_right _ _)
    inside).mp valid with same | ⟨first, last⟩
  · rw [Pos.Raw.ext_iff] at same
    dsimp only at same
    omega
  obtain ⟨before, rest, split, here⟩ := Pos.Raw.isValid_iff_exists_append.mp first
  obtain ⟨upTo, after, split', there⟩ := Pos.Raw.isValid_iff_exists_append.mp last
  rw [Pos.Raw.ext_iff, byteIdx_rawEndPos] at here there
  dsimp only at here there
  refine ⟨before, after, ?_, here.symm⟩
  have front_bytes : ∀ {front back : String}, text = front ++ back →
      text.toByteArray.extract 0 front.utf8ByteSize = front.toByteArray := by
    intro front back cut
    rw [cut, toByteArray_append]
    exact ByteArray.extract_append_eq_left size_toByteArray.symm
  have whole : upTo = before ++ part := by
    rw [← toByteArray_inj, toByteArray_append, ← front_bytes split', ← front_bytes split, ← bytes,
      ← here, ← there]
    exact ByteArray.extract_eq_extract_append_extract pos (Nat.zero_le _) (Nat.le_add_right _ _)
  rw [← whole]
  exact split'

/-- Of the places where a text stands in another, the search gives the first one. -/
theorem findBytes?_eq_some (here : text = before ++ part ++ after)
    (first : ∀ before' after', text = before' ++ part ++ after' →
      before.toList.length ≤ before'.toList.length) :
    findBytes? part text = some before.utf8ByteSize := by
  rw [findBytes?, List.find?_range_eq_some]
  refine ⟨?_, ?_, ?_⟩
  · rw [here]
    simpa using congrArg ByteArray.data (extract_append before part after)
  · rw [List.mem_range, here, utf8ByteSize_append, utf8ByteSize_append]
    omega
  · intro pos earlier
    rw [Bool.not_eq_true', decide_eq_false_iff_not]
    intro bytes
    -- The bytes of an empty part stand even inside of characters, but nowhere before the start.
    have place : ∃ before' after', text = before' ++ part ++ after' ∧
        before'.utf8ByteSize ≤ pos := by
      by_cases empty : part = ""
      · exact ⟨"", text, by simp [empty], Nat.zero_le _⟩
      · obtain ⟨before', after', there, size⟩ :=
          exists_append_of_extract empty (ByteArray.ext bytes)
        exact ⟨before', after', there, Nat.le_of_eq size⟩
    obtain ⟨before', after', there, size⟩ := place
    have shorter := first before' after' there
    rw [here, append_assoc, append_assoc] at there
    have := utf8ByteSize_le_of_length_le there shorter
    omega

theorem findBytes?_eq_none (absent : ∀ before after, text ≠ before ++ part ++ after) :
    findBytes? part text = none := by
  have nonempty : part ≠ "" := by
    intro empty
    exact absent "" text (by simp [empty])
  rw [findBytes?, List.find?_range_eq_none]
  intro pos inside
  rw [Bool.not_eq_true', decide_eq_false_iff_not]
  intro bytes
  obtain ⟨before, after, there, -⟩ := exists_append_of_extract nonempty (ByteArray.ext bytes)
  exact absent before after there

end ClassCoupling.Text
