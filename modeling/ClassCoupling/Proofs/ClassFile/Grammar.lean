import ClassCoupling.ClassFile.Constant
import ClassCoupling.Proofs.Result
import Mathlib.Tactic.Common

/-!
# The written form of a constant pool

How constants and pools are written, tag by tag, without reference to how they are read. Reading
takes exactly the written forms off the front of a stream.
-/

namespace ClassCoupling.ClassFile

/-- A number of two bytes, the high one first. -/
def word (n : Nat) : List UInt8 := [(n / 256).toUInt8, n.toUInt8]

/-- A constant, the slots it takes and the bytes it is written in. -/
inductive Constant.Written : Constant → Nat → List UInt8 → Prop where
  | utf8 {bytes : List UInt8} (short : bytes.length < 65536) :
      Written (.utf8 bytes) 1 (1 :: word bytes.length ++ bytes)
  | classRef {name : Nat} (small : name < 65536) : Written (.classRef name) 1 (7 :: word name)
  | stringRef {text : Nat} (small : text < 65536) : Written (.stringRef text) 1 (8 :: word text)
  | integer {bytes : List UInt8} (four : bytes.length = 4) :
      Written (.fixed .integer bytes) 1 (3 :: bytes)
  | float {bytes : List UInt8} (four : bytes.length = 4) :
      Written (.fixed .float bytes) 1 (4 :: bytes)
  | long {bytes : List UInt8} (eight : bytes.length = 8) :
      Written (.fixed .long bytes) 2 (5 :: bytes)
  | double {bytes : List UInt8} (eight : bytes.length = 8) :
      Written (.fixed .double bytes) 2 (6 :: bytes)
  | fieldRef {bytes : List UInt8} (four : bytes.length = 4) :
      Written (.fixed .fieldRef bytes) 1 (9 :: bytes)
  | methodRef {bytes : List UInt8} (four : bytes.length = 4) :
      Written (.fixed .methodRef bytes) 1 (10 :: bytes)
  | interfaceMethodRef {bytes : List UInt8} (four : bytes.length = 4) :
      Written (.fixed .interfaceMethodRef bytes) 1 (11 :: bytes)
  | nameAndType {bytes : List UInt8} (four : bytes.length = 4) :
      Written (.fixed .nameAndType bytes) 1 (12 :: bytes)
  | methodHandle {bytes : List UInt8} (three : bytes.length = 3) :
      Written (.fixed .methodHandle bytes) 1 (15 :: bytes)
  | methodType {bytes : List UInt8} (two : bytes.length = 2) :
      Written (.fixed .methodType bytes) 1 (16 :: bytes)
  | invokeDynamic {bytes : List UInt8} (four : bytes.length = 4) :
      Written (.fixed .invokeDynamic bytes) 1 (18 :: bytes)

/-- The constants from a slot on, each starting below `size`, and their bytes. -/
inductive ConstantPool.Written (size : Nat) : Nat → ConstantPool → List UInt8 → Prop where
  | done {slot : Nat} (full : size ≤ slot) : Written size slot [] []
  | entry {slot width : Nat} {c : Constant} {bytes rest : List UInt8} {pool : ConstantPool}
      (below : slot < size) (first : c.Written width bytes)
      (others : Written size (slot + width) pool rest) :
      Written size slot ((slot, c) :: pool) (bytes ++ rest)

namespace Stream

variable {s s' : Stream} {bytes more : List UInt8} {n k : Nat}

/-- `bytes` stand at the front of `s`, and `s'` is what follows them. -/
def Splits (s : Stream) (bytes : List UInt8) (s' : Stream) : Prop :=
  s.bytes = bytes ++ s'.bytes ∧ s'.failure = s.failure

theorem splits_append_iff :
    s.Splits (bytes ++ more) s' ↔ ∃ middle, s.Splits bytes middle ∧ middle.Splits more s' := by
  constructor
  · rintro ⟨front, failure⟩
    exact ⟨⟨more ++ s'.bytes, s.failure⟩, ⟨by rw [front, List.append_assoc], rfl⟩, rfl, failure⟩
  · rintro ⟨middle, ⟨front, failure⟩, rest, same⟩
    exact ⟨by rw [front, rest, List.append_assoc], same.trans failure⟩

theorem fill_eq_ok_iff : s.fill n = .ok (bytes, s') ↔ bytes.length = n ∧ s.Splits bytes s' := by
  obtain ⟨front, failure⟩ := s
  obtain ⟨rest, other⟩ := s'
  unfold fill Splits
  dsimp only
  split
  next enough =>
    simp only [Except.ok.injEq, Prod.mk.injEq, Stream.mk.injEq]
    constructor
    · rintro ⟨rfl, rfl, rfl⟩
      exact ⟨by simp [enough], by simp, rfl⟩
    · rintro ⟨rfl, rfl, rfl⟩
      simp
  next short =>
    constructor
    · intro filled
      split at filled <;> cases filled
    · rintro ⟨rfl, rfl, -⟩
      simp at short

theorem take_eq_ok_iff : s.take n = .ok (bytes, s') ↔ bytes.length = n ∧ s.Splits bytes s' := by
  rw [take, mapError_eq_ok_iff, fill_eq_ok_iff]

/-- A copy that ends early is told by its count, so passing over bytes fails just when reading them
does, and is reported in the same way. -/
theorem pass_eq_take (s : Stream) (n : Nat) : s.pass n = s.take n := by
  unfold pass take skip copy fill
  split
  next enough => simp [bind, Except.bind, pure, Except.pure, Nat.min_eq_left enough]
  next short =>
    cases s.failure with
    | some error => rfl
    | none =>
      have few : s.bytes.length < n := Nat.lt_of_not_le short
      simp only [bind, Except.bind, few, if_true]
      rfl

theorem pass_eq_ok_iff : s.pass n = .ok (bytes, s') ↔ bytes.length = n ∧ s.Splits bytes s' := by
  rw [pass_eq_take, take_eq_ok_iff]

theorem bigEndian_word (small : n < 65536) : bigEndian (word n) = n := by
  simp [bigEndian, word]
  omega

theorem word_bigEndian (two : bytes.length = 2) :
    bytes = word (bigEndian bytes) ∧ bigEndian bytes < 65536 := by
  match bytes with
  | [high, low] =>
    have := high.toNat_lt
    have := low.toNat_lt
    refine ⟨?_, by simp only [bigEndian, List.foldl_cons, List.foldl_nil]; omega⟩
    simp only [bigEndian, word, List.foldl_cons, List.foldl_nil]
    congr 1
    · apply UInt8.toNat_inj.mp
      simp
      omega
    · congr 1
      apply UInt8.toNat_inj.mp
      simp

theorem number_two_eq_ok_iff : s.number 2 = .ok (k, s') ↔ k < 65536 ∧ s.Splits (word k) s' := by
  unfold number
  rw [bind_eq_ok_iff]
  constructor
  · rintro ⟨⟨bytes, rest⟩, taken, result⟩
    obtain ⟨two, splits⟩ := take_eq_ok_iff.mp taken
    cases result
    obtain ⟨same, small⟩ := word_bigEndian two
    exact ⟨small, same ▸ splits⟩
  · rintro ⟨small, splits⟩
    refine ⟨(word k, s'), take_eq_ok_iff.mpr ⟨rfl, splits⟩, ?_⟩
    simp only [bigEndian_word small]
    rfl

end Stream

namespace Constant

variable {slot : Nat} {s s' : Stream} {c : Constant}

theorem ofTag?_eq_some {tag : UInt8} {kind : FixedKind} (found : FixedKind.ofTag? tag = some kind) :
    kind.tag = tag := by
  simpa using List.find?_some found

theorem written_fixed {kind : FixedKind} {bytes : List UInt8} (fits : bytes.length = kind.length) :
    Written (.fixed kind bytes) (width (.fixed kind bytes)) (kind.tag :: bytes) := by
  cases kind with
  | integer => exact .integer fits
  | float => exact .float fits
  | long => exact .long fits
  | double => exact .double fits
  | fieldRef => exact .fieldRef fits
  | methodRef => exact .methodRef fits
  | interfaceMethodRef => exact .interfaceMethodRef fits
  | nameAndType => exact .nameAndType fits
  | methodHandle => exact .methodHandle fits
  | methodType => exact .methodType fits
  | invokeDynamic => exact .invokeDynamic fits

theorem width_le_two (c : Constant) : c.width ≤ 2 := by
  unfold width
  split <;> decide

theorem Written.width_eq {width : Nat} {bytes : List UInt8} (written : c.Written width bytes) :
    width = c.width := by
  cases written <;> rfl

theorem Written.of_fixed {kind : FixedKind} {width : Nat} {payload bytes : List UInt8}
    (written : Written (.fixed kind payload) width bytes) :
    bytes = kind.tag :: payload ∧ payload.length = kind.length := by
  cases written <;> exact ⟨rfl, ‹_›⟩

theorem readTagged_fixed (kind : FixedKind) : readTagged slot kind.tag s = (do
    let (payload, s) ← s.pass kind.length
    return (.fixed kind payload, s)) := by
  cases kind <;> rfl

theorem written_of_readTagged {tag : UInt8} (read : readTagged slot tag s = .ok (c, s')) :
    ∃ payload, c.Written c.width (tag :: payload) ∧ s.Splits payload s' := by
  unfold readTagged at read
  split at read
  next isText =>
    subst isText
    obtain ⟨⟨length, afterLength⟩, counted, taken⟩ := bind_eq_ok_iff.mp read
    obtain ⟨⟨bytes, rest⟩, taken, result⟩ := bind_eq_ok_iff.mp taken
    obtain ⟨small, lengthSplits⟩ := Stream.number_two_eq_ok_iff.mp counted
    obtain ⟨rfl, textSplits⟩ := Stream.take_eq_ok_iff.mp taken
    cases result
    exact ⟨_, .utf8 small, Stream.splits_append_iff.mpr ⟨_, lengthSplits, textSplits⟩⟩
  split at read
  next isClass =>
    subst isClass
    obtain ⟨⟨name, rest⟩, number, result⟩ := bind_eq_ok_iff.mp read
    obtain ⟨small, splits⟩ := Stream.number_two_eq_ok_iff.mp number
    cases result
    exact ⟨_, .classRef small, splits⟩
  split at read
  next isString =>
    subst isString
    obtain ⟨⟨text, rest⟩, number, result⟩ := bind_eq_ok_iff.mp read
    obtain ⟨small, splits⟩ := Stream.number_two_eq_ok_iff.mp number
    cases result
    exact ⟨_, .stringRef small, splits⟩
  split at read
  next kind found =>
    obtain ⟨⟨payload, rest⟩, passed, result⟩ := bind_eq_ok_iff.mp read
    obtain ⟨fits, splits⟩ := Stream.pass_eq_ok_iff.mp passed
    cases result
    rw [← ofTag?_eq_some found]
    exact ⟨_, written_fixed fits, splits⟩
  next => cases read

theorem readTagged_of_written {tag : UInt8} {width : Nat} {payload : List UInt8}
    (written : c.Written width (tag :: payload)) (splits : s.Splits payload s') :
    readTagged slot tag s = .ok (c, s') := by
  cases c with
  | utf8 bytes =>
    cases written with
    | utf8 short =>
      obtain ⟨middle, lengthSplits, textSplits⟩ := Stream.splits_append_iff.mp splits
      refine bind_eq_ok_iff.mpr
        ⟨(_, middle), Stream.number_two_eq_ok_iff.mpr ⟨short, lengthSplits⟩, ?_⟩
      exact bind_eq_ok_iff.mpr ⟨(_, s'), Stream.take_eq_ok_iff.mpr ⟨rfl, textSplits⟩, rfl⟩
  | classRef name =>
    cases written with
    | classRef small =>
      exact bind_eq_ok_iff.mpr
        ⟨(name, s'), Stream.number_two_eq_ok_iff.mpr ⟨small, splits⟩, rfl⟩
  | stringRef text =>
    cases written with
    | stringRef small =>
      exact bind_eq_ok_iff.mpr
        ⟨(text, s'), Stream.number_two_eq_ok_iff.mpr ⟨small, splits⟩, rfl⟩
  | fixed kind bytes =>
    obtain ⟨same, fits⟩ := written.of_fixed
    cases same
    rw [readTagged_fixed]
    exact bind_eq_ok_iff.mpr ⟨(payload, s'), Stream.pass_eq_ok_iff.mpr ⟨fits, splits⟩, rfl⟩

theorem Written.exists_tag {width : Nat} {bytes : List UInt8} (written : c.Written width bytes) :
    ∃ tag payload, bytes = tag :: payload := by
  cases written <;> exact ⟨_, _, rfl⟩

theorem read_eq_ok_iff :
    read slot s = .ok (c, s') ↔ ∃ bytes, c.Written c.width bytes ∧ s.Splits bytes s' := by
  rw [read, bind_eq_ok_iff]
  constructor
  · rintro ⟨⟨tagByte, afterTag⟩, taken, read⟩
    obtain ⟨one, tagSplits⟩ := Stream.take_eq_ok_iff.mp taken
    obtain ⟨tag, rfl⟩ := List.length_eq_one_iff.mp one
    obtain ⟨payload, written, splits⟩ := written_of_readTagged read
    exact ⟨_, written, Stream.splits_append_iff.mpr ⟨afterTag, tagSplits, splits⟩⟩
  · rintro ⟨bytes, written, splits⟩
    obtain ⟨tag, payload, rfl⟩ := written.exists_tag
    rw [← List.singleton_append] at splits
    obtain ⟨afterTag, tagSplits, splits⟩ := Stream.splits_append_iff.mp splits
    exact ⟨([tag], afterTag), Stream.take_eq_ok_iff.mpr ⟨rfl, tagSplits⟩,
      readTagged_of_written written splits⟩

end Constant

namespace ConstantPool

variable {size slot : Nat} {s s' : Stream} {pool : ConstantPool}

theorem written_of_readFrom (read : readFrom size slot s = .ok (pool, s')) :
    ∃ bytes, Written size slot pool bytes ∧ s.Splits bytes s' := by
  fun_induction readFrom size slot s generalizing pool with
  | case1 slot s below ih =>
    obtain ⟨⟨c, afterFirst⟩, first, rest⟩ := bind_eq_ok_iff.mp read
    obtain ⟨⟨others, after⟩, rest, result⟩ := bind_eq_ok_iff.mp rest
    obtain ⟨firstBytes, firstWritten, firstSplits⟩ := Constant.read_eq_ok_iff.mp first
    cases result
    obtain ⟨bytes, written, splits⟩ := ih c afterFirst rest
    exact ⟨_, .entry below firstWritten written,
      Stream.splits_append_iff.mpr ⟨afterFirst, firstSplits, splits⟩⟩
  | case2 slot s full =>
    cases read
    exact ⟨[], .done (Nat.le_of_not_lt full), rfl, rfl⟩

theorem readFrom_of_written {bytes : List UInt8} (written : Written size slot pool bytes)
    (splits : s.Splits bytes s') : readFrom size slot s = .ok (pool, s') := by
  induction written generalizing s with
  | done full =>
    obtain ⟨rfl⟩ : s = s' := by
      obtain ⟨same, failure⟩ := splits
      cases s
      cases s'
      simp_all
    rw [readFrom, if_neg (Nat.not_lt.mpr full)]
  | entry below first _ ih =>
    obtain ⟨middle, firstSplits, splits⟩ := Stream.splits_append_iff.mp splits
    -- the reader advances by the constant's own width
    have width := first.width_eq
    subst width
    rw [readFrom, if_pos below]
    refine bind_eq_ok_iff.mpr
      ⟨(_, middle), Constant.read_eq_ok_iff.mpr ⟨_, first, firstSplits⟩, ?_⟩
    exact bind_eq_ok_iff.mpr ⟨(_, s'), ih splits, rfl⟩

theorem readFrom_eq_ok_iff : readFrom size slot s = .ok (pool, s') ↔
    ∃ bytes, Written size slot pool bytes ∧ s.Splits bytes s' :=
  ⟨written_of_readFrom, fun ⟨_, written, splits⟩ => readFrom_of_written written splits⟩

end ConstantPool

end ClassCoupling.ClassFile
