import ClassCoupling.ClassFile.Unit
import ClassCoupling.Proofs.ClassFile.Grammar
import ClassCoupling.Proofs.Text.NameSet

/-!
# The written form of a unit

A unit is written as a header, a constant pool and the slot of its own class; whatever follows is
not looked at. Exactly these byte strings are read, and a unit depends on the classes of its pool
and on the object types in texts that are no string literals.
-/

namespace ClassCoupling.ClassFile

open Text

namespace ConstantPool

variable {size first : Nat} {pool : ConstantPool} {bytes : List UInt8}

/-- The class at a slot has a name, and this is it. -/
def NamesClass (pool : ConstantPool) (slot : Nat) (name : String) : Prop :=
  ∃ text bytes, (slot, .classRef text) ∈ pool ∧ (text, .utf8 bytes) ∈ pool ∧
    Utf8.decode bytes = name

/-- The text stands at a slot that no string literal points to. -/
def HasPlainText (pool : ConstantPool) (text : String) : Prop :=
  ∃ slot bytes, (slot, .utf8 bytes) ∈ pool ∧ (∀ user, (user, .stringRef slot) ∉ pool) ∧
    Utf8.decode bytes = text

/-- A dotted name is that of a class other than an array, or of an object type in a plain text. -/
def RefersTo (pool : ConstantPool) (name : String) : Prop :=
  (∃ slot written, pool.NamesClass slot written ∧ written.toList.head? ≠ some '[' ∧
      dotted written = name) ∨
    ∃ text, pool.HasPlainText text ∧
      ∃ written ∈ Descriptor.classNames text.toList, dotted (String.ofList written) = name

theorem Written.bounds (written : Written size first pool bytes) :
    ∀ entry ∈ pool, first ≤ entry.1 ∧ entry.1 < size ∧ entry.1 + entry.2.width ≤ size + 1 := by
  induction written with
  | done => simp
  | @entry slot width c _ _ pool below constant _ ih =>
    have same := constant.width_eq
    have positive := c.width_pos
    have narrow := c.width_le_two
    intro entry member
    cases member with
    | head => exact ⟨Nat.le_refl _, below, by dsimp only; omega⟩
    | tail _ later =>
      obtain ⟨lower, upper, fits⟩ := ih entry later
      exact ⟨by omega, upper, fits⟩

theorem Written.increasing (written : Written size first pool bytes) :
    pool.Pairwise fun entry later => entry.1 < later.1 := by
  induction written with
  | done => exact .nil
  | @entry slot width c _ _ pool below constant others ih =>
    apply List.pairwise_cons.mpr
    refine ⟨?_, ih⟩
    intro later member
    have same := constant.width_eq
    have positive := c.width_pos
    have lower := (others.bounds later member).1
    dsimp only
    omega

theorem lookup_eq_some_iff (increasing : pool.Pairwise fun entry later => entry.1 < later.1)
    {slot : Nat} {c : Constant} : pool.lookup slot = some c ↔ (slot, c) ∈ pool := by
  induction pool with
  | nil => simp
  | cons entry pool ih =>
    obtain ⟨here, constant⟩ := entry
    obtain ⟨before, others⟩ := List.pairwise_cons.mp increasing
    by_cases same : slot = here
    · subst same
      -- slots only grow, so no later constant stands at the same slot
      have absent : (slot, c) ∉ pool := fun member => Nat.lt_irrefl slot (before (slot, c) member)
      simp [absent, eq_comm]
    · rw [List.lookup_cons, beq_false_of_ne same, ih others]
      simp [same]

section Increasing

variable (increasing : pool.Pairwise fun entry later => entry.1 < later.1)
include increasing

theorem text?_eq_some_iff {slot : Nat} {text : String} : pool.text? slot = some text ↔
    ∃ bytes, (slot, .utf8 bytes) ∈ pool ∧ Utf8.decode bytes = text := by
  simp only [← lookup_eq_some_iff increasing, text?]
  split
  next bytes found => simp [found]
  next other => simpa using fun bytes found => absurd found (other bytes)

theorem className?_eq_some_iff {slot : Nat} {name : String} :
    pool.className? slot = some name ↔ pool.NamesClass slot name := by
  have here (text : Nat) : pool.lookup slot = some (.classRef text) ↔ _ :=
    lookup_eq_some_iff increasing
  simp only [className?, NamesClass, ← here]
  split
  next text found => simp [found, text?_eq_some_iff increasing]
  next other => simpa using fun text found => absurd found (other text)

theorem mem_classes {name : String} :
    name ∈ pool.classes ↔ ∃ slot, pool.NamesClass slot name := by
  simp only [classes, List.mem_filterMap, className?_eq_some_iff increasing]
  constructor
  · rintro ⟨⟨slot, _⟩, _, named⟩
    exact ⟨slot, named⟩
  · rintro ⟨slot, named⟩
    obtain ⟨text, _, found, _⟩ := id named
    exact ⟨(slot, .classRef text), found, named⟩

end Increasing

theorem not_startsWith_bracket_iff {text : String} :
    (!startsWith "[" text) = true ↔ text.toList.head? ≠ some '[' := by
  unfold startsWith
  cases text.toList with
  | nil => decide
  | cons c cs => simp [List.isPrefixOf, eq_comm (a := c)]

theorem mem_literals {slot : Nat} :
    slot ∈ pool.literals ↔ ∃ user, (user, .stringRef slot) ∈ pool := by
  unfold literals
  rw [List.mem_filterMap]
  constructor
  · rintro ⟨⟨user, c⟩, member, points⟩
    cases c with
    | stringRef text =>
      cases points
      exact ⟨user, member⟩
    | utf8 | classRef | fixed => cases points
  · rintro ⟨user, member⟩
    exact ⟨_, member, rfl⟩

theorem mem_plainTexts {text : String} : text ∈ pool.plainTexts ↔ pool.HasPlainText text := by
  unfold plainTexts HasPlainText
  rw [List.mem_filterMap]
  constructor
  · rintro ⟨⟨slot, c⟩, member, shown⟩
    cases c with
    | utf8 bytes =>
      dsimp only at shown
      split at shown
      · cases shown
      next plain =>
        cases shown
        rw [mem_literals] at plain
        exact ⟨slot, bytes, member, not_exists.mp plain, rfl⟩
    | classRef | stringRef | fixed => cases shown
  · rintro ⟨slot, bytes, member, plain, rfl⟩
    refine ⟨_, member, ?_⟩
    dsimp only
    rw [if_neg]
    rw [mem_literals]
    exact not_exists.mpr plain

theorem mem_referencedNames (increasing : pool.Pairwise fun entry later => entry.1 < later.1)
    {name : String} : name ∈ pool.referencedNames ↔ pool.RefersTo name := by
  unfold referencedNames RefersTo namesIn
  simp only [List.mem_append, List.mem_map, List.mem_filter, List.mem_flatMap,
    mem_classes increasing, mem_plainTexts, not_startsWith_bracket_iff]
  constructor
  · rintro (⟨written, ⟨⟨slot, named⟩, noArray⟩, same⟩ | inText)
    · exact .inl ⟨slot, written, named, noArray, same⟩
    · exact .inr inText
  · rintro (⟨slot, written, named, noArray, same⟩ | inText)
    · exact .inl ⟨written, ⟨⟨slot, named⟩, noArray⟩, same⟩
    · exact .inr inText

end ConstantPool

/-- The bytes of a unit with a given pool; the unit's own class has the given dotted name. -/
inductive UnitWritten (maxMajor : Nat) (name : String) (size : Nat) (pool : ConstantPool) :
    List UInt8 → Prop where
  | intro {minor poolBytes flags rest : List UInt8} {major own : Nat} {written : String}
      (minor_length : minor.length = 2) (flags_length : flags.length = 2)
      (major_small : major < 65536) (size_small : size < 65536) (own_small : own < 65536)
      (supported : major ≤ maxMajor) (constants : pool.Written size 1 poolBytes)
      (named : pool.NamesClass own written) (same : dotted written = name) :
      UnitWritten maxMajor name size pool
        ([0xca, 0xfe, 0xba, 0xbe] ++ (minor ++ (word major ++ (word size ++ (poolBytes ++
          (flags ++ (word own ++ rest)))))))

theorem UnitWritten.constants {maxMajor size : Nat} {name : String} {pool : ConstantPool}
    {bytes : List UInt8} (written : UnitWritten maxMajor name size pool bytes) :
    size < 65536 ∧ ∃ poolBytes, pool.Written size 1 poolBytes := by
  cases written with
  | intro _ _ _ size_small _ _ constants => exact ⟨size_small, _, constants⟩

section Reading

variable {s s' : Stream}

theorem eq_of_bigEndian_eq_magic {bytes : List UInt8} (four : bytes.length = 4)
    (isMagic : Stream.bigEndian bytes = magic) : bytes = [0xca, 0xfe, 0xba, 0xbe] := by
  match bytes with
  | [a, b, c, d] =>
    have := a.toNat_lt
    have := b.toNat_lt
    have := c.toNat_lt
    have := d.toNat_lt
    simp only [Stream.bigEndian, magic, List.foldl_cons, List.foldl_nil] at isMagic
    simp only [List.cons.injEq, and_true, ← UInt8.toNat_inj]
    refine ⟨?_, ?_, ?_, ?_⟩ <;> simp <;> omega

theorem number_four_eq_magic_iff :
    s.number 4 = .ok (magic, s') ↔ s.Splits [0xca, 0xfe, 0xba, 0xbe] s' := by
  unfold Stream.number
  rw [bind_eq_ok_iff]
  constructor
  · rintro ⟨⟨bytes, rest⟩, taken, result⟩
    obtain ⟨four, splits⟩ := Stream.take_eq_ok_iff.mp taken
    simp only [pure, Except.pure, Except.ok.injEq, Prod.mk.injEq] at result
    obtain ⟨isMagic, rfl⟩ := result
    exact eq_of_bigEndian_eq_magic four isMagic ▸ splits
  · intro splits
    exact ⟨_, Stream.take_eq_ok_iff.mpr ⟨rfl, splits⟩, rfl⟩

theorem readHeader_eq_ok_iff {major : Nat} : readHeader s = .ok (major, s') ↔
    ∃ minor, minor.length = 2 ∧ major < 65536 ∧
      s.Splits ([0xca, 0xfe, 0xba, 0xbe] ++ (minor ++ word major)) s' := by
  unfold readHeader
  rw [bind_eq_ok_iff]
  constructor
  · rintro ⟨⟨found, afterMagic⟩, number, rest⟩
    dsimp only at rest
    split at rest
    · cases rest
    next isMagic =>
      rw [not_not.mp isMagic] at number
      obtain ⟨⟨minor, afterMinor⟩, taken, version⟩ := bind_eq_ok_iff.mp rest
      obtain ⟨two, minorSplits⟩ := Stream.pass_eq_ok_iff.mp taken
      obtain ⟨small, majorSplits⟩ := Stream.number_two_eq_ok_iff.mp version
      exact ⟨minor, two, small, Stream.splits_append_iff.mpr
        ⟨afterMagic, number_four_eq_magic_iff.mp number, Stream.splits_append_iff.mpr
          ⟨afterMinor, minorSplits, majorSplits⟩⟩⟩
  · rintro ⟨minor, two, small, splits⟩
    obtain ⟨afterMagic, magicSplits, splits⟩ := Stream.splits_append_iff.mp splits
    obtain ⟨afterMinor, minorSplits, majorSplits⟩ := Stream.splits_append_iff.mp splits
    refine ⟨(magic, afterMagic), number_four_eq_magic_iff.mpr magicSplits, ?_⟩
    refine bind_eq_ok_iff.mpr ⟨(minor, afterMinor), ?_, ?_⟩
    · exact Stream.pass_eq_ok_iff.mpr ⟨two, minorSplits⟩
    · exact Stream.number_two_eq_ok_iff.mpr ⟨small, majorSplits⟩

theorem readBody_eq_ok_iff {pool : ConstantPool} {name : String} :
    readBody s = .ok (pool, name) ↔
      ∃ size poolBytes flags own written after, size < 65536 ∧ pool.Written size 1 poolBytes ∧
        flags.length = 2 ∧ own < 65536 ∧ pool.NamesClass own written ∧ dotted written = name ∧
        s.Splits (word size ++ (poolBytes ++ (flags ++ word own))) after := by
  unfold readBody ConstantPool.read
  rw [bind_eq_ok_iff]
  constructor
  · rintro ⟨⟨found, afterPool⟩, read, rest⟩
    obtain ⟨⟨size, afterSize⟩, counted, read⟩ := bind_eq_ok_iff.mp read
    obtain ⟨⟨flags, afterFlags⟩, taken, rest⟩ := bind_eq_ok_iff.mp rest
    obtain ⟨⟨own, after⟩, number, rest⟩ := bind_eq_ok_iff.mp rest
    obtain ⟨size_small, sizeSplits⟩ := Stream.number_two_eq_ok_iff.mp counted
    obtain ⟨poolBytes, constants, poolSplits⟩ := ConstantPool.readFrom_eq_ok_iff.mp read
    obtain ⟨two, flagSplits⟩ := Stream.pass_eq_ok_iff.mp taken
    obtain ⟨own_small, ownSplits⟩ := Stream.number_two_eq_ok_iff.mp number
    dsimp only at rest
    split at rest
    next written named =>
      cases rest
      refine ⟨size, poolBytes, flags, own, written, after, size_small, constants, two, own_small,
        (ConstantPool.className?_eq_some_iff constants.increasing).mp named, rfl, ?_⟩
      exact Stream.splits_append_iff.mpr ⟨afterSize, sizeSplits, Stream.splits_append_iff.mpr
        ⟨afterPool, poolSplits, Stream.splits_append_iff.mpr ⟨afterFlags, flagSplits, ownSplits⟩⟩⟩
    next => cases rest
  · rintro ⟨size, poolBytes, flags, own, written, after, size_small, constants, two, own_small,
      named, rfl, splits⟩
    obtain ⟨afterSize, sizeSplits, splits⟩ := Stream.splits_append_iff.mp splits
    obtain ⟨afterPool, poolSplits, splits⟩ := Stream.splits_append_iff.mp splits
    obtain ⟨afterFlags, flagSplits, ownSplits⟩ := Stream.splits_append_iff.mp splits
    refine ⟨(pool, afterPool), ?_, ?_⟩
    · refine bind_eq_ok_iff.mpr ⟨(size, afterSize), ?_, ?_⟩
      · exact Stream.number_two_eq_ok_iff.mpr ⟨size_small, sizeSplits⟩
      · exact ConstantPool.readFrom_eq_ok_iff.mpr ⟨poolBytes, constants, poolSplits⟩
    refine bind_eq_ok_iff.mpr ⟨(flags, afterFlags), ?_, ?_⟩
    · exact Stream.pass_eq_ok_iff.mpr ⟨two, flagSplits⟩
    refine bind_eq_ok_iff.mpr ⟨(own, after), ?_, ?_⟩
    · exact Stream.number_two_eq_ok_iff.mpr ⟨own_small, ownSplits⟩
    have found := (ConstantPool.className?_eq_some_iff constants.increasing).mpr named
    dsimp only
    rw [found]
    rfl

theorem parse_eq_ok_iff {maxMajor : Nat} {name : String} {unit : ParsedUnit} :
    parse maxMajor name s = .ok unit ↔ ∃ size pool, UnitWritten maxMajor name size pool s.bytes ∧
      unit = ⟨name, NameSet.ofList (pool.referencedNames.filter (· ≠ name))⟩ := by
  unfold parse
  rw [bind_eq_ok_iff]
  constructor
  · rintro ⟨⟨major, afterHeader⟩, header, rest⟩
    dsimp only at rest
    split at rest
    · cases rest
    next supported =>
      obtain ⟨⟨pool, declared⟩, body, rest⟩ := bind_eq_ok_iff.mp rest
      dsimp only at rest
      split at rest
      · cases rest
      next isExpected =>
        cases not_not.mp isExpected
        cases rest
        obtain ⟨minor, minor_length, major_small, front, _⟩ :=
          readHeader_eq_ok_iff.mp (mapError_eq_ok_iff.mp header)
        obtain ⟨size, poolBytes, flags, own, written, after, size_small, constants, flags_length,
          own_small, named, same, middle, _⟩ :=
          readBody_eq_ok_iff.mp (mapError_eq_ok_iff.mp body)
        refine ⟨size, pool, ?_, rfl⟩
        rw [front, middle]
        simp only [List.append_assoc]
        exact .intro minor_length flags_length major_small size_small own_small
          (Nat.le_of_not_lt supported) constants named same
  · rintro ⟨size, pool, written, rfl⟩
    obtain ⟨bytes, failure⟩ := s
    cases written with
    | @intro minor poolBytes flags rest major own written minor_length flags_length major_small
        size_small own_small supported constants named same =>
      -- the header leaves the body unread, and the body whatever follows the own slot
      let body : Stream :=
        ⟨word size ++ (poolBytes ++ (flags ++ (word own ++ rest))), failure⟩
      refine ⟨(major, body), ?_, ?_⟩
      · apply mapError_eq_ok_iff.mpr
        apply readHeader_eq_ok_iff.mpr
        exact ⟨minor, minor_length, major_small, by simp [body], rfl⟩
      dsimp only
      rw [if_neg (Nat.not_lt.mpr supported)]
      refine bind_eq_ok_iff.mpr ⟨(pool, name), ?_, ?_⟩
      · apply mapError_eq_ok_iff.mpr
        apply readBody_eq_ok_iff.mpr
        exact ⟨size, poolBytes, flags, own, written, ⟨rest, failure⟩, size_small, constants,
          flags_length, own_small, named, same, by simp [body], rfl⟩
      dsimp only
      rw [if_neg (not_not.mpr rfl)]
      rfl

end Reading

/-- The byte strings read are exactly the written units, and what is read follows from the pool
alone. No slot of a pool leaves its table or needs more than two bytes. -/
theorem parse_accepts_exactly_written_units (maxMajor : Nat) (name : String) (bytes : List UInt8)
    (failure : Option ReadError) :
    ((∃ unit, parse maxMajor name ⟨bytes, failure⟩ = .ok unit) ↔
        ∃ size pool, UnitWritten maxMajor name size pool bytes) ∧
      ∀ size pool, UnitWritten maxMajor name size pool bytes →
        (∃ unit, parse maxMajor name ⟨bytes, failure⟩ = .ok unit ∧ unit.name = name ∧
          unit.dependencies.Pairwise (· < ·) ∧
          ∀ other, other ∈ unit.dependencies ↔ other ≠ name ∧ pool.RefersTo other) ∧
        ∀ slot c, (slot, c) ∈ pool → 1 ≤ slot ∧ slot < size ∧ slot + c.width ≤ size + 1 ∧
          slot.toUInt16.toNat = slot := by
  refine ⟨⟨?_, ?_⟩, ?_⟩
  · rintro ⟨unit, parsed⟩
    obtain ⟨size, pool, written, _⟩ := parse_eq_ok_iff.mp parsed
    exact ⟨size, pool, written⟩
  · rintro ⟨size, pool, written⟩
    exact ⟨_, parse_eq_ok_iff.mpr ⟨size, pool, written, rfl⟩⟩
  · intro size pool written
    obtain ⟨small, poolBytes, constants⟩ := written.constants
    refine ⟨⟨_, parse_eq_ok_iff.mpr ⟨size, pool, written, rfl⟩, rfl,
      NameSet.pairwise_ofList _, ?_⟩, ?_⟩
    · intro other
      rw [NameSet.mem_ofList, List.mem_filter,
        ConstantPool.mem_referencedNames constants.increasing]
      simp [and_comm]
    · intro slot c member
      obtain ⟨lower, upper, fits⟩ := constants.bounds (slot, c) member
      refine ⟨lower, upper, fits, ?_⟩
      exact UInt16.toNat_ofNat_of_lt (upper.trans small)

/-- A pool with a class before its name, a wide constant in the middle and one at the end that
reaches beyond the pool, a literal that looks like a descriptor, and an array class. -/
def unevenPool : ConstantPool :=
  [(1, .classRef 2), (2, .utf8 [97, 47, 65]), (3, .fixed .long [0, 0, 0, 0, 0, 0, 0, 7]),
    (5, .utf8 [40, 76, 98, 47, 66, 59, 41, 86]), (6, .utf8 [76, 99, 47, 67, 59]), (7, .stringRef 6),
    (8, .classRef 9), (9, .utf8 [91, 100]), (10, .classRef 11), (11, .utf8 [101]),
    (12, .fixed .double [0, 0, 0, 0, 0, 0, 0, 0])]

def unevenPoolBytes : List UInt8 :=
  (7 :: word 2) ++ ((1 :: word 3 ++ [97, 47, 65]) ++ ((5 :: [0, 0, 0, 0, 0, 0, 0, 7]) ++
    ((1 :: word 8 ++ [40, 76, 98, 47, 66, 59, 41, 86]) ++ ((1 :: word 5 ++ [76, 99, 47, 67, 59]) ++
      ((8 :: word 6) ++ ((7 :: word 9) ++ ((1 :: word 2 ++ [91, 100]) ++ ((7 :: word 11) ++
        ((1 :: word 1 ++ [101]) ++ ((6 :: [0, 0, 0, 0, 0, 0, 0, 0]) ++ []))))))))))

theorem unevenPool_written : unevenPool.Written 13 1 unevenPoolBytes :=
  .entry (by decide) (.classRef (by decide)) <|
  .entry (by decide) (.utf8 (by decide)) <|
  .entry (by decide) (.long rfl) <|
  .entry (by decide) (.utf8 (by decide)) <|
  .entry (by decide) (.utf8 (by decide)) <|
  .entry (by decide) (.stringRef (by decide)) <|
  .entry (by decide) (.classRef (by decide)) <|
  .entry (by decide) (.utf8 (by decide)) <|
  .entry (by decide) (.classRef (by decide)) <|
  .entry (by decide) (.utf8 (by decide)) <|
  .entry (by decide) (.double rfl) <|
  .done (by decide)

def unevenBytes : List UInt8 :=
  [0xca, 0xfe, 0xba, 0xbe] ++ ([0, 0] ++ (word 52 ++ (word 13 ++ (unevenPoolBytes ++
    ([0, 33] ++ (word 1 ++ [0, 2, 9]))))))

theorem parse_accepts_exactly_written_units_uneven :
    UnitWritten 57 "a.A" 13 unevenPool unevenBytes ∧
      parse 57 "a.A" ⟨unevenBytes, none⟩ = .ok ⟨"a.A", ["b.B", "e"]⟩ ∧
      ∃ unit, parse 57 "a.A" ⟨unevenBytes, none⟩ = .ok unit ∧ unit.name = "a.A" ∧
        unit.dependencies.Pairwise (· < ·) ∧
        ∀ other, other ∈ unit.dependencies ↔ other ≠ "a.A" ∧ unevenPool.RefersTo other := by
  have named : unevenPool.NamesClass 1 "a/A" :=
    ⟨2, [97, 47, 65], by decide, by decide, by decide +kernel⟩
  have written : UnitWritten 57 "a.A" 13 unevenPool unevenBytes :=
    .intro rfl rfl (by decide) (by decide) (by decide) (by decide) unevenPool_written named
      (by decide +kernel)
  refine ⟨written, by decide +kernel, ?_⟩
  exact ((parse_accepts_exactly_written_units 57 "a.A" unevenBytes none).2 13 unevenPool written).1

/-- The bytes of a unit that refers to others, each by a class of its pool. -/
def unitBytes (own : String) (used : List String) : List UInt8 :=
  [0xCA, 0xFE, 0xBA, 0xBE, 0, 0, 0, 52, 0, (2 * used.length + 3).toUInt8] ++
    ((own :: used).mapIdx fun i name =>
      [1, 0, name.utf8ByteSize.toUInt8] ++ name.toUTF8.data.toList ++
        [7, 0, (2 * i + 1).toUInt8]).flatten ++
    [0, 0x21, 0, 2]

end ClassCoupling.ClassFile
