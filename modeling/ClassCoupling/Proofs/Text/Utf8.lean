import ClassCoupling.Text.Utf8
import Mathlib.Tactic.IntervalCases

/-!
# UTF-8 of a text

What is written as UTF-8 is read back as it was: the bytes of a character are taken one after the
other, and none of them is replaced.
-/

namespace ClassCoupling.Text.Utf8

variable {n : Nat} (rest : List UInt8)

theorem start_two (low : 0xc2 ≤ n) (high : n ≤ 0xdf) :
    start (UInt8.ofNat n) = .ok ⟨1, 0x80, 0xbf, n % 32⟩ := by
  interval_cases n <;> rfl

theorem start_three (low : 0xe0 ≤ n) (high : n ≤ 0xef) :
    start (UInt8.ofNat n) =
      .ok ⟨2, if n = 0xe0 then 0xa0 else 0x80, if n = 0xed then 0x9f else 0xbf, n % 16⟩ := by
  interval_cases n <;> rfl

theorem start_four (low : 0xf0 ≤ n) (high : n ≤ 0xf4) :
    start (UInt8.ofNat n) =
      .ok ⟨3, if n = 0xf0 then 0x90 else 0x80, if n = 0xf4 then 0x8f else 0xbf, n % 8⟩ := by
  interval_cases n <;> rfl

section Next

variable {lowest highest : UInt8} {bits : Nat} (small : n < 64) (low : lowest.toNat ≤ n + 128)
  (high : n + 128 ≤ highest.toNat)
include small low high

/-- A byte that may come next is taken. -/
theorem decodeFrom_some (missing : Nat) :
    decodeFrom (some ⟨missing, lowest, highest, bits⟩) (UInt8.ofNat (n + 128) :: rest) =
      if missing ≤ 1 then Char.ofNat (bits * 64 + n) :: decodeFrom none rest
      else decodeFrom (some ⟨missing - 1, 0x80, 0xbf, bits * 64 + n⟩) rest := by
  have byte : (UInt8.ofNat (n + 128)).toNat = n + 128 :=
    UInt8.toNat_ofNat_of_lt (Nat.lt_of_le_of_lt high highest.toNat_lt)
  have taken : lowest ≤ UInt8.ofNat (n + 128) ∧ UInt8.ofNat (n + 128) ≤ highest := by
    rw [UInt8.le_iff_toNat_le, UInt8.le_iff_toNat_le, byte]
    exact ⟨low, high⟩
  have own : (n + 128) % 64 = n := by omega
  rw [decodeFrom, if_pos taken, byte, own]

theorem decodeFrom_last :
    decodeFrom (some ⟨1, lowest, highest, bits⟩) (UInt8.ofNat (n + 128) :: rest) =
      Char.ofNat (bits * 64 + n) :: decodeFrom none rest :=
  decodeFrom_some rest small low high 1

theorem decodeFrom_inner (missing : Nat) :
    decodeFrom (some ⟨missing + 2, lowest, highest, bits⟩) (UInt8.ofNat (n + 128) :: rest) =
      decodeFrom (some ⟨missing + 1, 0x80, 0xbf, bits * 64 + n⟩) rest := by
  rw [decodeFrom_some rest small low high, if_neg (by omega)]
  rfl

end Next

/-! ## Characters -/

section Characters

variable {v : Nat}

theorem sixth_lt (n : Nat) : n % 64 < 64 := Nat.mod_lt n (by decide)

theorem le_next (n : Nat) : (0x80 : UInt8).toNat ≤ n % 64 + 128 := Nat.le_add_left _ _

theorem next_le (n : Nat) : n % 64 + 128 ≤ (0xbf : UInt8).toNat :=
  Nat.add_le_add_right (Nat.le_of_lt_succ (sixth_lt n)) 128

theorem decodeFrom_one (most : v ≤ 0x7f) :
    decodeFrom none (UInt8.ofNat v :: rest) = Char.ofNat v :: decodeFrom none rest := by
  have byte : (UInt8.ofNat v).toNat = v :=
    UInt8.toNat_ofNat_of_lt (Nat.lt_of_le_of_lt most (by decide))
  have plain : UInt8.ofNat v < 0x80 := by
    rw [UInt8.lt_iff_toNat_lt, byte]
    exact Nat.lt_succ_of_le most
  rw [decodeFrom, start, if_pos plain, byte]

theorem decodeFrom_two (least : 0x7f < v) (most : v ≤ 0x7ff) :
    decodeFrom none (UInt8.ofNat (v / 64 % 32 + 192) :: UInt8.ofNat (v % 64 + 128) :: rest) =
      Char.ofNat v :: decodeFrom none rest := by
  have whole : (v / 64 % 32 + 192) % 32 * 64 + v % 64 = v := by omega
  rw [decodeFrom, start_two (by omega) (by omega)]
  dsimp only
  rw [decodeFrom_last rest (sixth_lt _) (le_next _) (next_le _), whole]

/-- The bounds of the second byte keep out what fits in two bytes, and the surrogates. -/
theorem decodeFrom_three (least : 0x7ff < v) (most : v ≤ 0xffff) (valid : v < 0xd800 ∨ 0xdfff < v) :
    decodeFrom none (UInt8.ofNat (v / 4096 % 16 + 224) :: UInt8.ofNat (v / 64 % 64 + 128) ::
      UInt8.ofNat (v % 64 + 128) :: rest) = Char.ofNat v :: decodeFrom none rest := by
  have whole : ((v / 4096 % 16 + 224) % 16 * 64 + v / 64 % 64) * 64 + v % 64 = v := by omega
  have low : (if v / 4096 % 16 + 224 = 0xe0 then 0xa0 else 0x80 : UInt8).toNat ≤
      v / 64 % 64 + 128 := by
    split
    · change 0xa0 ≤ _
      omega
    · exact le_next _
  have high : v / 64 % 64 + 128 ≤
      (if v / 4096 % 16 + 224 = 0xed then 0x9f else 0xbf : UInt8).toNat := by
    split
    · change _ ≤ 0x9f
      omega
    · exact next_le _
  rw [decodeFrom, start_three (by omega) (by omega)]
  dsimp only
  rw [decodeFrom_inner _ (sixth_lt _) low high 0,
    decodeFrom_last rest (sixth_lt _) (le_next _) (next_le _), whole]

/-- The bounds of the second byte keep out what fits in three bytes, and what is no character. -/
theorem decodeFrom_four (least : 0xffff < v) (most : v < 0x110000) :
    decodeFrom none (UInt8.ofNat (v / 262144 % 8 + 240) :: UInt8.ofNat (v / 4096 % 64 + 128) ::
      UInt8.ofNat (v / 64 % 64 + 128) :: UInt8.ofNat (v % 64 + 128) :: rest) =
      Char.ofNat v :: decodeFrom none rest := by
  have whole : (((v / 262144 % 8 + 240) % 8 * 64 + v / 4096 % 64) * 64 + v / 64 % 64) * 64 +
    v % 64 = v := by omega
  have low : (if v / 262144 % 8 + 240 = 0xf0 then 0x90 else 0x80 : UInt8).toNat ≤
      v / 4096 % 64 + 128 := by
    split
    · change 0x90 ≤ _
      omega
    · exact le_next _
  have high : v / 4096 % 64 + 128 ≤
      (if v / 262144 % 8 + 240 = 0xf4 then 0x8f else 0xbf : UInt8).toNat := by
    split
    · change _ ≤ 0x8f
      omega
    · exact next_le _
  rw [decodeFrom, start_four (by omega) (by omega)]
  dsimp only
  rw [decodeFrom_inner _ (sixth_lt _) low high 1,
    decodeFrom_inner _ (sixth_lt _) (le_next _) (next_le _) 0,
    decodeFrom_last rest (sixth_lt _) (le_next _) (next_le _), whole]

end Characters

theorem decodeFrom_encodeChar (c : Char) :
    decodeFrom none (String.utf8EncodeChar c ++ rest) = c :: decodeFrom none rest := by
  have valid : c.val.toNat < 0xd800 ∨ 0xdfff < c.val.toNat ∧ c.val.toNat < 0x110000 := c.valid
  have same : Char.ofNat c.val.toNat = c := Char.ofNat_toNat c
  unfold String.utf8EncodeChar
  dsimp only
  generalize c.val.toNat = v at valid same ⊢
  rw [← same]
  split
  next one => exact decodeFrom_one rest one
  next more =>
    split
    next two => exact decodeFrom_two rest (by omega) two
    next more =>
      split
      next three => exact decodeFrom_three rest (by omega) three (by omega)
      next more => exact decodeFrom_four rest (by omega) (by omega)

theorem decode_encode (text : String) : decode (encode text) = text := by
  have read (chars : List Char) : decodeFrom none (chars.flatMap String.utf8EncodeChar) = chars := by
    induction chars with
    | nil => rfl
    | cons c chars ih => rw [List.flatMap_cons, decodeFrom_encodeChar, ih]
  rw [decode, encode, read, String.ofList_toList]

end ClassCoupling.Text.Utf8
