import ClassCoupling.ClassFile.Descriptor
import Mathlib.Data.List.TakeWhile
import Mathlib.Tactic.Common

/-!
# The written form of object types

How class names and object types are written, without reference to how they are looked for. The
reader takes exactly the written forms off the front of a text, and no two of them start there.
-/

namespace ClassCoupling.ClassFile.Descriptor

/-- At least one letter, digit or underscore, and nothing else. -/
def IsWord (cs : List Char) : Prop := cs ≠ [] ∧ ∀ c ∈ cs, isWordChar c = true

/-- Words with `/` between them, possibly followed by `$` and one more word. -/
inductive IsClassName : List Char → Prop where
  | outer {words : List (List Char)} (nonempty : words ≠ []) (each : ∀ w ∈ words, IsWord w) :
      IsClassName (['/'].intercalate words)
  | inner {words : List (List Char)} {last : List Char} (nonempty : words ≠ [])
      (each : ∀ w ∈ words, IsWord w) (isWord : IsWord last) :
      IsClassName (['/'].intercalate words ++ '$' :: last)

/-- An object type of a class, with or without type arguments. -/
inductive ObjectType (name : List Char) : List Char → Prop where
  | plain (named : IsClassName name) : ObjectType name ('L' :: (name ++ [';']))
  | generic {arguments : List Char} (named : IsClassName name) (nonempty : arguments ≠ [])
      (closed : '>' ∉ arguments) :
      ObjectType name ('L' :: (name ++ '<' :: (arguments ++ ['>', ';'])))

variable {cs first last name rest : List Char} {words : List (List Char)}

/-! ## Words -/

theorem word_append_snd (cs : List Char) : (word cs).1 ++ (word cs).2 = cs :=
  List.takeWhile_append_dropWhile

theorem isWord_word (nonempty : (word cs).1 ≠ []) : IsWord (word cs).1 :=
  ⟨nonempty, fun _ => List.mem_takeWhile_imp⟩

theorem word_append (each : ∀ c ∈ first, isWordChar c = true)
    (boundary : ∀ c, rest.head? = some c → isWordChar c = false) :
    word (first ++ rest) = (first, rest) := by
  have taken : rest.takeWhile isWordChar = [] := by
    cases rest with
    | nil => rfl
    | cons c rest => simp [boundary c rfl]
  have dropped : rest.dropWhile isWordChar = rest := by
    cases rest with
    | nil => rfl
    | cons c rest => simp [boundary c rfl]
  unfold word
  rw [List.takeWhile_append_of_pos each, List.dropWhile_append_of_pos each, taken, dropped,
    List.append_nil]

/-! ## Paths of words -/

theorem intercalate_cons (first : List Char) (words : List (List Char)) :
    ['/'].intercalate (first :: words) = first ++ words.flatMap ('/' :: ·) := by
  induction words generalizing first with
  | nil => simp [List.intercalate]
  | cons w words ih => rw [List.intercalate_cons_cons, ih, List.append_assoc]; rfl

theorem exists_furtherWords (cs : List Char) : ∃ words : List (List Char),
    (∀ w ∈ words, IsWord w) ∧ (furtherWords cs).1 = words.flatMap ('/' :: ·) ∧
      (furtherWords cs).1 ++ (furtherWords cs).2 = cs := by
  fun_induction furtherWords cs with
  | case1 => exact ⟨[], by simp, rfl, rfl⟩
  | case2 c cs found more rest further ih =>
    obtain ⟨words, each, written, whole⟩ := ih
    simp only [further] at written whole
    refine ⟨(word cs).1 :: words, ?_, ?_, ?_⟩
    · exact List.forall_mem_cons.mpr ⟨isWord_word found.2, each⟩
    · simp only [found.1, written, List.flatMap_cons]
    · calc c :: (word cs).1 ++ more ++ rest
        _ = c :: ((word cs).1 ++ (more ++ rest)) := by simp
        _ = c :: cs := by rw [whole, word_append_snd]
  | case3 => exact ⟨[], by simp, rfl, rfl⟩

/-- Behind a word comes `/` or whatever follows the path. -/
theorem not_isWordChar_of_head? (boundary : ∀ c, rest.head? = some c → isWordChar c = false)
    {c : Char} (head : (words.flatMap ('/' :: ·) ++ rest).head? = some c) :
    isWordChar c = false := by
  cases words with
  | nil => exact boundary c head
  | cons w words =>
    cases head
    decide

theorem furtherWords_append (each : ∀ w ∈ words, IsWord w)
    (boundary : ∀ c, rest.head? = some c → isWordChar c = false)
    (noSlash : rest.head? ≠ some '/') :
    furtherWords (words.flatMap ('/' :: ·) ++ rest) = (words.flatMap ('/' :: ·), rest) := by
  induction words with
  | nil =>
    cases rest with
    | nil => exact furtherWords.eq_1
    | cons c rest =>
      have other : c ≠ '/' := fun same => noSlash (congrArg some same)
      simp [furtherWords, other]
  | cons w words ih =>
    obtain ⟨isWord, each⟩ := List.forall_mem_cons.mp each
    have here : word (w ++ (words.flatMap ('/' :: ·) ++ rest)) =
        (w, words.flatMap ('/' :: ·) ++ rest) :=
      word_append isWord.2 fun c => not_isWordChar_of_head? boundary
    rw [List.flatMap_cons, List.append_assoc, List.cons_append, furtherWords, here, ih each]
    simp [isWord.1]

theorem mem_intercalate {c : Char} (mem : c ∈ ['/'].intercalate words) :
    c = '/' ∨ ∃ w ∈ words, c ∈ w := by
  cases words with
  | nil => cases mem
  | cons first words =>
    rw [intercalate_cons, List.mem_append, List.mem_flatMap] at mem
    rcases mem with mem | ⟨w, listed, mem⟩
    · exact .inr ⟨first, List.mem_cons_self, mem⟩
    · cases mem with
      | head => exact .inl rfl
      | tail _ mem => exact .inr ⟨w, List.mem_cons_of_mem _ listed, mem⟩

/-! ## Class names -/

/-- A text at whose front no class name goes on. -/
def Ends (rest : List Char) : Prop :=
  ∀ c, rest.head? = some c → isWordChar c = false ∧ c ≠ '/' ∧ c ≠ '$'

theorem exists_innerWord (cs : List Char) : (innerWord cs).1 ++ (innerWord cs).2 = cs ∧
    ((innerWord cs).1 = [] ∨ ∃ last, IsWord last ∧ (innerWord cs).1 = '$' :: last) := by
  cases cs with
  | nil => exact ⟨rfl, .inl rfl⟩
  | cons c cs =>
    by_cases found : c = '$' ∧ (word cs).1 ≠ []
    · rw [innerWord, if_pos found]
      refine ⟨?_, .inr ⟨_, isWord_word found.2, ?_⟩⟩
      · rw [List.cons_append, word_append_snd]
      · rw [found.1]
    · rw [innerWord, if_neg found]
      exact ⟨rfl, .inl rfl⟩

theorem innerWord_of_ends (ends : Ends rest) : innerWord rest = ([], rest) := by
  cases rest with
  | nil => rfl
  | cons c rest => exact if_neg fun found => (ends c rfl).2.2 found.1

theorem innerWord_append (isWord : IsWord last) (ends : Ends rest) :
    innerWord ('$' :: last ++ rest) = ('$' :: last, rest) := by
  have here : word (last ++ rest) = (last, rest) :=
    word_append isWord.2 fun c head => (ends c head).1
  rw [List.cons_append, innerWord, here]
  simp [isWord.1]

/-- What is read as a class name is one. -/
theorem isClassName_of_className? (read : className? cs = some (name, rest)) :
    IsClassName name ∧ cs = name ++ rest := by
  unfold className? at read
  split at read
  · cases read
  next nonempty =>
    obtain ⟨words, each, further, whole⟩ := exists_furtherWords (word cs).2
    obtain ⟨split, inner⟩ := exists_innerWord (furtherWords (word cs).2).2
    have eachWord : ∀ w ∈ (word cs).1 :: words, IsWord w :=
      List.forall_mem_cons.mpr ⟨isWord_word nonempty, each⟩
    have path : (word cs).1 ++ (furtherWords (word cs).2).1 =
        ['/'].intercalate ((word cs).1 :: words) := by rw [intercalate_cons, further]
    simp only [Option.some.injEq, Prod.mk.injEq] at read
    obtain ⟨rfl, rfl⟩ := read
    refine ⟨?_, ?_⟩
    · rw [path]
      rcases inner with none | ⟨last, isWord, inner⟩
      · rw [none, List.append_nil]
        exact .outer (List.cons_ne_nil _ _) eachWord
      · rw [inner]
        exact .inner (List.cons_ne_nil _ _) eachWord isWord
    · rw [List.append_assoc, split, List.append_assoc, whole, word_append_snd]

/-- A path is read to its end, and what follows it is taken for an inner class. -/
theorem className?_path_append (nonempty : words ≠ []) (each : ∀ w ∈ words, IsWord w)
    (boundary : ∀ c, rest.head? = some c → isWordChar c = false)
    (noSlash : rest.head? ≠ some '/') :
    className? (['/'].intercalate words ++ rest) =
      some (['/'].intercalate words ++ (innerWord rest).1, (innerWord rest).2) := by
  cases words with
  | nil => exact absurd rfl nonempty
  | cons first words =>
    obtain ⟨isWord, each⟩ := List.forall_mem_cons.mp each
    have here : word (first ++ (words.flatMap ('/' :: ·) ++ rest)) =
        (first, words.flatMap ('/' :: ·) ++ rest) :=
      word_append isWord.2 fun c => not_isWordChar_of_head? boundary
    have further := furtherWords_append each boundary noSlash
    rw [intercalate_cons, List.append_assoc, className?, here]
    simp only [if_neg isWord.1, further]

/-- A class name is read to its end. -/
theorem className?_append (named : IsClassName name) (ends : Ends rest) :
    className? (name ++ rest) = some (name, rest) := by
  cases named with
  | outer nonempty each =>
    have noSlash : rest.head? ≠ some '/' := fun head => (ends '/' head).2.1 rfl
    rw [className?_path_append nonempty each (fun c head => (ends c head).1) noSlash,
      innerWord_of_ends ends, List.append_nil]
  | @inner words last nonempty each isWord =>
    have boundary : ∀ c, ('$' :: last ++ rest).head? = some c → isWordChar c = false := by
      intro c head
      cases head
      decide
    have noSlash : ('$' :: last ++ rest).head? ≠ some '/' := by simp
    rw [List.append_assoc, className?_path_append nonempty each boundary noSlash,
      innerWord_append isWord ends]

theorem isClassName_iff : IsClassName name ↔ className? name = some (name, []) := by
  constructor
  · intro named
    have ends : Ends [] := by simp [Ends]
    simpa using className?_append named ends
  · intro read
    exact (isClassName_of_className? read).1

instance : DecidablePred IsClassName := fun _ => decidable_of_iff _ isClassName_iff.symm

theorem IsClassName.mem (named : IsClassName name) {c : Char} (mem : c ∈ name) :
    isWordChar c = true ∨ c = '/' ∨ c = '$' := by
  have path {words : List (List Char)} (each : ∀ w ∈ words, IsWord w)
      (mem : c ∈ ['/'].intercalate words) : isWordChar c = true ∨ c = '/' := by
    rcases mem_intercalate mem with slash | ⟨w, listed, mem⟩
    · exact .inr slash
    · exact .inl ((each w listed).2 c mem)
  cases named with
  | outer _ each => exact (path each mem).imp_right .inl
  | inner _ each isWord =>
    rcases List.mem_append.mp mem with mem | mem
    · exact (path each mem).imp_right .inl
    · cases mem with
      | head => exact .inr (.inr rfl)
      | tail _ mem => exact .inl (isWord.2 c mem)

/-! ## Object types -/

theorem skipArguments_append {arguments : List Char} (nonempty : arguments ≠ [])
    (closed : '>' ∉ arguments) : skipArguments ('<' :: (arguments ++ '>' :: rest)) = rest := by
  have first : (arguments ++ '>' :: rest).head? ≠ some '>' := by
    cases arguments with
    | nil => exact absurd rfl nonempty
    | cons c arguments =>
      intro head
      cases head
      exact closed List.mem_cons_self
  have dropped : (arguments ++ '>' :: rest).dropWhile (· ≠ '>') = '>' :: rest := by
    rw [List.dropWhile_append_of_pos]
    · simp
    · intro c mem
      have : c ≠ '>' := fun same => closed (same ▸ mem)
      simpa using this
  rw [skipArguments, if_pos ⟨rfl, first, by simp⟩, dropped, List.tail_cons]

theorem skipArguments_cases (cs : List Char) : skipArguments cs = cs ∨
    ∃ arguments, arguments ≠ [] ∧ '>' ∉ arguments ∧
      cs = '<' :: (arguments ++ '>' :: skipArguments cs) := by
  cases cs with
  | nil => exact .inl rfl
  | cons c cs =>
    by_cases found : c = '<' ∧ cs.head? ≠ some '>' ∧ '>' ∈ cs
    · obtain ⟨rfl, first, ending⟩ := found
      obtain ⟨arguments, after, rfl, closed⟩ := List.eq_append_cons_of_mem ending
      have nonempty : arguments ≠ [] := by
        rintro rfl
        exact first rfl
      rw [skipArguments_append nonempty closed]
      exact .inr ⟨arguments, nonempty, closed, rfl⟩
    · exact .inl (if_neg found)

theorem exists_objectType (read : objectType? cs = some (name, rest)) :
    ∃ written, ObjectType name written ∧ cs = written ++ rest := by
  unfold objectType? at read
  split at read
  next isL =>
    split at read
    next found after readName =>
      split at read
      next closed =>
        obtain ⟨tail, rfl⟩ := List.head?_eq_some_iff.mp isL
        obtain ⟨named, rfl⟩ := isClassName_of_className? readName
        obtain ⟨final, split⟩ := List.head?_eq_some_iff.mp closed
        simp only [split, List.tail_cons, Option.some.injEq, Prod.mk.injEq] at read
        obtain ⟨rfl, rfl⟩ := read
        rcases skipArguments_cases after with same | ⟨arguments, nonempty, closed, generic⟩
        · refine ⟨_, .plain named, ?_⟩
          rw [← same, split]
          simp
        · refine ⟨_, .generic named nonempty closed, ?_⟩
          rw [generic, split]
          simp
      next => cases read
    next => cases read
  next => cases read

theorem ends_cons {c : Char} (other : isWordChar c = false ∧ c ≠ '/' ∧ c ≠ '$') :
    Ends (c :: rest) := by
  intro d head
  cases head
  exact other

theorem objectType?_append {written : List Char} (type : ObjectType name written)
    (rest : List Char) : objectType? (written ++ rest) = some (name, rest) := by
  cases type with
  | plain named =>
    have read : className? (name ++ ';' :: rest) = some (name, ';' :: rest) :=
      className?_append named (ends_cons (by decide))
    simp [objectType?, read, skipArguments]
  | @generic arguments named nonempty closed =>
    have read : className? (name ++ '<' :: (arguments ++ '>' :: ';' :: rest)) =
        some (name, '<' :: (arguments ++ '>' :: ';' :: rest)) :=
      className?_append named (ends_cons (by decide))
    simp [objectType?, read, skipArguments_append nonempty closed]

/-- The reader takes exactly the written object types off the front of a text. -/
theorem objectType?_eq_some_iff : objectType? cs = some (name, rest) ↔
    ∃ written, ObjectType name written ∧ cs = written ++ rest := by
  constructor
  · exact exists_objectType
  · intro found
    obtain ⟨written, type, rfl⟩ := found
    exact objectType?_append type rest

end ClassCoupling.ClassFile.Descriptor
