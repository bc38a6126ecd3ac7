import ClassCoupling.ClassFile.Unit
import ClassCoupling.Proofs.ClassFile.Grammar
import Mathlib.Data.List.Infix

/-!
# How far a stream is read

Every reader takes bytes off the front of a stream until it has its answer, and then looks no
further: what follows cannot change the answer, and a stream that gives out before that point is
reported as such, whatever its bytes were. Readers keep this property when they follow each other,
so a unit as a whole has it.
-/

namespace ClassCoupling.ClassFile

variable {ε ε' α β γ : Type} {starved : Option ReadError → ε} {keep : β → Stream → γ}

/-- No stream that breaks off within `bytes`, or right after them, is long enough for the reader. -/
def Starves (starved : Option ReadError → ε) (read : Stream → Except ε γ) (bytes : List UInt8) : Prop :=
  ∀ front, front <+: bytes → ∀ failure, read ⟨front, failure⟩ = .error (starved failure)

/-- The reader has its answer after `front`, whatever follows, and not before. The answer is kept
together with the rest of the stream, or without it. -/
structure Stops (starved : Option ReadError → ε) (keep : α → Stream → γ)
    (read : Stream → Except ε γ) (front : List UInt8) (answer : Except ε α) : Prop where
  answers : ∀ more failure, read ⟨front ++ more, failure⟩ = answer.map (keep · ⟨more, failure⟩)
  starves : ∀ short, short <+: front → short ≠ front →
    ∀ failure, read ⟨short, failure⟩ = .error (starved failure)

/-- A reader that looks at no byte beyond those it needs for its answer. -/
def Frugal (starved : Option ReadError → ε) (keep : α → Stream → γ) (read : Stream → Except ε γ) :
    Prop :=
  ∀ bytes, Starves starved read bytes ∨
    ∃ front answer, front <+: bytes ∧ Stops starved keep read front answer

/-! ## Readers one after the other -/

theorem frugal_of_answer (answer : Except ε β) {read : Stream → Except ε γ}
    (same : ∀ s, read s = answer.map (keep · s)) : Frugal starved keep read := by
  intro bytes
  refine .inr ⟨[], answer, List.nil_prefix, fun more failure => same _, ?_⟩
  intro short inside different
  exact absurd (List.prefix_nil.mp inside) different

theorem frugal_pure (b : β) : Frugal starved keep fun s => (pure (keep b s) : Except ε γ) :=
  frugal_of_answer (.ok b) fun _ => rfl

theorem frugal_throw (e : ε) : Frugal starved keep fun _ => (throw e : Except ε γ) :=
  frugal_of_answer (.error e) fun _ => rfl

/-- A proper front of two byte strings in a row ends within the first, or within the second. -/
theorem proper_prefix_append {short front more : List UInt8} (inside : short <+: front ++ more)
    (different : short ≠ front ++ more) :
    (short <+: front ∧ short ≠ front) ∨
      ∃ rest, short = front ++ rest ∧ rest <+: more ∧ rest ≠ more := by
  rcases List.prefix_or_prefix_of_prefix inside (List.prefix_append front more) with below | above
  · by_cases all : short = front
    · refine .inr ⟨[], by rw [all, List.append_nil], List.nil_prefix, ?_⟩
      intro nothing
      exact different (by rw [all, ← nothing, List.append_nil])
    · exact .inl ⟨below, all⟩
  · obtain ⟨rest, rfl⟩ := above
    refine .inr ⟨rest, rfl, (List.prefix_append_right_inj front).mp inside, ?_⟩
    intro same
    exact different (by rw [same])

/-- Reads on from where another reader stopped. -/
def andThen (read : Stream → Except ε (α × Stream)) (next : α → Stream → Except ε γ) (s : Stream) :
    Except ε γ := do
  let (a, s) ← read s
  next a s

section Sequence

variable {read : Stream → Except ε (α × Stream)} {next : α → Stream → Except ε γ}
  {front bytes : List UInt8} {a : α}

theorem andThen_eq_error {s : Stream} {e : ε} (failed : read s = .error e) :
    andThen read next s = .error e := by
  rw [andThen, failed]
  rfl

theorem Stops.andThen_eq (stops : Stops starved Prod.mk read front (.ok a)) (more : List UInt8)
    (failure : Option ReadError) :
    andThen read next ⟨front ++ more, failure⟩ = next a ⟨more, failure⟩ := by
  rw [andThen, stops.answers]
  rfl

theorem Stops.starves_andThen (stops : Stops starved Prod.mk read front (.ok a))
    (starves : Starves starved (next a) bytes) :
    Starves starved (andThen read next) (front ++ bytes) := by
  intro short inside failure
  by_cases all : short = front ++ bytes
  · rw [all, stops.andThen_eq]
    exact starves bytes (List.prefix_refl bytes) failure
  rcases proper_prefix_append inside all with ⟨within, less⟩ | ⟨rest, rfl, within, -⟩
  · exact andThen_eq_error (stops.starves short within less failure)
  · rw [stops.andThen_eq]
    exact starves rest within failure

theorem Stops.andThen {answer : Except ε β} (stops : Stops starved Prod.mk read front (.ok a))
    (later : Stops starved keep (next a) bytes answer) :
    Stops starved keep (andThen read next) (front ++ bytes) answer where
  answers more failure := by
    rw [List.append_assoc, stops.andThen_eq]
    exact later.answers more failure
  starves short inside different failure := by
    rcases proper_prefix_append inside different with ⟨within, less⟩ | ⟨rest, rfl, within, less⟩
    · exact andThen_eq_error (stops.starves short within less failure)
    · rw [stops.andThen_eq]
      exact later.starves rest within less failure

theorem Frugal.andThen (first : Frugal starved Prod.mk read)
    (second : ∀ a, Frugal starved keep (next a)) : Frugal starved keep (andThen read next) := by
  intro bytes
  rcases first bytes with starves | ⟨front, answer, ⟨rest, rfl⟩, stops⟩
  · exact .inl fun short inside failure => andThen_eq_error (starves short inside failure)
  cases answer with
  | error e =>
    refine .inr ⟨front, .error e, List.prefix_append front rest, ?_, ?_⟩
    · exact fun more failure => andThen_eq_error (stops.answers more failure)
    · exact fun short inside less failure =>
        andThen_eq_error (stops.starves short inside less failure)
  | ok a =>
    rcases second a rest with starves | ⟨later, answer, inside, stopsLater⟩
    · exact .inl (stops.starves_andThen starves)
    · exact .inr ⟨front ++ later, answer, (List.prefix_append_right_inj front).mpr inside,
        stops.andThen stopsLater⟩

end Sequence

theorem Frugal.mapError {keep : α → Stream → γ} {read : Stream → Except ε γ}
    (frugal : Frugal starved keep read) (f : ε → ε') :
    Frugal (fun failure => f (starved failure)) keep fun s => (read s).mapError f := by
  intro bytes
  rcases frugal bytes with starves | ⟨front, answer, inside, stops⟩
  · left
    intro short inside failure
    simp only [starves short inside failure, Except.mapError]
  · refine .inr ⟨front, answer.mapError f, inside, ?_, ?_⟩
    · intro more failure
      rw [stops.answers]
      cases answer <;> rfl
    · intro short within less failure
      simp only [stops.starves short within less failure, Except.mapError]

/-- What is concluded from an answer needs no more bytes than the answer. -/
theorem Frugal.conclude {read : Stream → Except ε α} (frugal : Frugal starved (fun a _ => a) read)
    (conclude : α → Except ε γ) :
    Frugal starved (fun c _ => c) fun s => read s >>= conclude := by
  intro bytes
  rcases frugal bytes with starves | ⟨front, answer, inside, stops⟩
  · left
    intro short inside failure
    dsimp only
    rw [starves short inside failure]
    rfl
  · refine .inr ⟨front, answer >>= conclude, inside, ?_, ?_⟩
    · intro more failure
      rw [stops.answers]
      cases answer with
      | error e => rfl
      | ok a =>
        change conclude a = (conclude a).map fun c => c
        cases conclude a <;> rfl
    · intro short within less failure
      rw [stops.starves short within less failure]
      rfl

/-! ## The readers of a unit -/

/-- What is said of a stream that gave out. -/
def gaveOut : Option ReadError → Defect
  | none => .truncated
  | some error => .ofReadError error

theorem frugal_take (n : Nat) : Frugal gaveOut Prod.mk (Stream.take n) := by
  intro bytes
  have short : ∀ (front : List UInt8) failure, front.length < n →
      Stream.take n ⟨front, failure⟩ = .error (gaveOut failure) := by
    intro front failure less
    rw [Stream.take, Stream.fill, if_neg (Nat.not_le.mpr less)]
    cases failure <;> rfl
  by_cases enough : n ≤ bytes.length
  · have length : (bytes.take n).length = n := List.length_take_of_le enough
    refine .inr ⟨bytes.take n, .ok (bytes.take n), List.take_prefix n bytes, ?_, ?_⟩
    · intro more failure
      exact Stream.take_eq_ok_iff.mpr ⟨length, rfl, rfl⟩
    · intro front inside different failure
      apply short
      rw [← length]
      exact Nat.lt_of_le_of_ne inside.length_le fun same => different (inside.eq_of_length same)
  · left
    intro front inside failure
    exact short front failure (Nat.lt_of_le_of_lt inside.length_le (Nat.lt_of_not_le enough))

theorem frugal_pass (n : Nat) : Frugal gaveOut Prod.mk (Stream.pass n) := by
  rw [funext fun s => Stream.pass_eq_take s n]
  exact frugal_take n

theorem frugal_number (n : Nat) : Frugal gaveOut Prod.mk (Stream.number n) := by
  change Frugal _ _ (andThen (Stream.take n) fun bytes s => pure (Stream.bigEndian bytes, s))
  exact (frugal_take n).andThen fun bytes => frugal_pure (Stream.bigEndian bytes)

/-- A number, and what is made of it. -/
theorem frugal_number_map (n : Nat) (f : Nat → α) :
    Frugal gaveOut Prod.mk (andThen (Stream.number n) fun number s => pure (f number, s)) :=
  (frugal_number n).andThen fun number => frugal_pure (f number)

theorem frugal_readTagged (slot : Nat) (tag : UInt8) :
    Frugal gaveOut Prod.mk (Constant.readTagged slot tag) := by
  change Frugal gaveOut Prod.mk fun s => Constant.readTagged slot tag s
  unfold Constant.readTagged
  by_cases isText : tag = Constant.utf8Tag
  · simp only [if_pos isText]
    exact (frugal_number 2).andThen fun length =>
      (frugal_take length).andThen fun bytes => frugal_pure (Constant.utf8 bytes)
  by_cases isClass : tag = Constant.classTag
  · simp only [if_neg isText, if_pos isClass]
    exact frugal_number_map 2 Constant.classRef
  by_cases isString : tag = Constant.stringTag
  · simp only [if_neg isText, if_neg isClass, if_pos isString]
    exact frugal_number_map 2 Constant.stringRef
  simp only [if_neg isText, if_neg isClass, if_neg isString]
  cases FixedKind.ofTag? tag with
  | some kind =>
    exact (frugal_pass kind.length).andThen fun payload =>
      frugal_pure (Constant.fixed kind payload)
  | none => exact frugal_throw (Defect.unknownTag tag slot)

theorem frugal_readConstant (slot : Nat) : Frugal gaveOut Prod.mk (Constant.read slot) := by
  change Frugal _ _ (andThen (Stream.take 1) fun tagByte =>
    Constant.readTagged slot (tagByte.headD 0))
  exact (frugal_take 1).andThen fun tagByte => frugal_readTagged slot (tagByte.headD 0)

theorem frugal_readFrom (size slot : Nat) :
    Frugal gaveOut Prod.mk (ConstantPool.readFrom size slot) := by
  induction left : size - slot using Nat.strongRecOn generalizing slot with
  | ind n ih =>
    by_cases below : slot < size
    · have step : ConstantPool.readFrom size slot = andThen (Constant.read slot) fun c =>
          andThen (ConstantPool.readFrom size (slot + c.width)) fun others s =>
            pure ((slot, c) :: others, s) := by
        funext s
        rw [ConstantPool.readFrom, if_pos below]
        rfl
      rw [step]
      refine (frugal_readConstant slot).andThen fun c => ?_
      have shorter : size - (slot + c.width) < n := by
        have := c.width_pos
        omega
      exact (ih _ shorter _ rfl).andThen fun others => frugal_pure ((slot, c) :: others)
    · have done : ConstantPool.readFrom size slot = fun s => pure ([], s) := by
        funext s
        rw [ConstantPool.readFrom, if_neg below]
        rfl
      rw [done]
      exact frugal_pure []

theorem frugal_readPool : Frugal gaveOut Prod.mk ConstantPool.read := by
  change Frugal _ _ (andThen (Stream.number 2) fun size => ConstantPool.readFrom size 1)
  exact (frugal_number 2).andThen fun size => frugal_readFrom size 1

theorem frugal_readHeader : Frugal gaveOut Prod.mk readHeader := by
  change Frugal _ _ (andThen (Stream.number 4) fun found s =>
    if found ≠ magic then throw (Defect.badMagic found)
    else andThen (Stream.pass 2) (fun _ => Stream.number 2) s)
  refine (frugal_number 4).andThen fun found => ?_
  by_cases isMagic : found = magic
  · simp only [isMagic, ne_eq, not_true_eq_false, if_false]
    exact (frugal_pass 2).andThen fun _ => frugal_number 2
  · simp only [ne_eq, isMagic, not_false_eq_true, if_true]
    exact frugal_throw (Defect.badMagic found)

theorem readBody_eq : readBody =
    andThen ConstantPool.read fun pool => andThen (Stream.pass 2) fun _ =>
      andThen (Stream.number 2) fun own _ =>
        match pool.className? own with
        | some name => pure (pool, dotted name)
        | none => throw (Defect.ownIndex own) :=
  rfl

theorem frugal_readBody : Frugal gaveOut (fun body _ => body) readBody := by
  rw [readBody_eq]
  refine frugal_readPool.andThen fun pool => (frugal_pass 2).andThen fun _ =>
    (frugal_number 2).andThen fun own => ?_
  cases pool.className? own with
  | some name => exact frugal_pure (pool, dotted name)
  | none => exact frugal_throw (Defect.ownIndex own)

/-- What is said of a unit whose stream gave out. -/
def cutOff (name : String) (failure : Option ReadError) : Problem :=
  .malformedUnit name (gaveOut failure).describe

theorem frugal_parse (maxMajor : Nat) (name : String) :
    Frugal (cutOff name) (fun unit _ => unit) (parse maxMajor name) := by
  let malformed (d : Defect) := Problem.malformedUnit name d.describe
  change Frugal _ _ (andThen (fun s => (readHeader s).mapError malformed) fun major s =>
    if maxMajor < major then throw (Problem.unsupportedVersion name major maxMajor)
    else (readBody s).mapError malformed >>= fun body =>
      if body.2 ≠ name then throw (Problem.nameMismatch name body.2)
      else pure (ParsedUnit.mk body.2
        (Text.NameSet.ofList (body.1.referencedNames.filter (· ≠ body.2)))))
  refine (frugal_readHeader.mapError malformed).andThen fun major => ?_
  by_cases newer : maxMajor < major
  · simp only [if_pos newer]
    exact frugal_throw (Problem.unsupportedVersion name major maxMajor)
  · simp only [if_neg newer]
    exact (frugal_readBody.mapError malformed).conclude _

/-! ## Cut and extended streams -/

section Cut

variable {maxMajor n : Nat} {name : String} {front more : List UInt8}
  {answer : Except Problem ParsedUnit}
  (stops : Stops (cutOff name) (fun unit _ => unit) (parse maxMajor name) front answer)
include stops

theorem Stops.parse_append (failure : Option ReadError) :
    parse maxMajor name ⟨front ++ more, failure⟩ = answer := by
  rw [stops.answers]
  cases answer <;> rfl

theorem Stops.parse_take_of_le (enough : front.length ≤ n) (failure : Option ReadError) :
    parse maxMajor name ⟨(front ++ more).take n, failure⟩ = answer := by
  rw [List.take_append, List.take_of_length_le enough]
  exact stops.parse_append failure

theorem Stops.parse_take_of_lt (less : n < front.length) (failure : Option ReadError) :
    parse maxMajor name ⟨(front ++ more).take n, failure⟩ = .error (cutOff name failure) := by
  rw [List.take_append_of_le_length (Nat.le_of_lt less)]
  refine stops.starves _ (List.take_prefix n front) ?_ failure
  intro same
  have := congrArg List.length same
  rw [List.length_take_of_le (Nat.le_of_lt less)] at this
  exact Nat.ne_of_lt less this

end Cut

/-- The stream comes to an end: nothing goes wrong, or no more than that it ends too early. -/
def Ends (failure : Option ReadError) : Prop := ∀ error ∈ failure, error.kind = .unexpectedEnd

theorem Ends.gaveOut_eq {failure : Option ReadError} (ends : Ends failure) :
    gaveOut failure = .truncated := by
  cases failure with
  | none => rfl
  | some error =>
    have kind := ends error rfl
    simp only [gaveOut, Defect.ofReadError, kind]

theorem Ends.cutOff_eq {failure : Option ReadError} (ends : Ends failure) (name : String) :
    cutOff name failure = .malformedUnit name "stream ends unexpectedly" := by
  rw [cutOff, ends.gaveOut_eq]
  rfl

theorem cutOff_eq_text {error : ReadError} (fails : error.kind ≠ .unexpectedEnd) (name : String) :
    cutOff name (some error) = .malformedUnit name error.text := by
  obtain ⟨kind, text⟩ := error
  cases kind with
  | unexpectedEnd => exact absurd rfl fails
  | other => rfl

end ClassCoupling.ClassFile
