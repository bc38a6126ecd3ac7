/-!
# Class names in type descriptors

An object type is written `L`, a class name, possibly type arguments in angle brackets, and `;`. A
class name is a `/`-separated list of words, possibly followed by `$` and one more word. Texts are
searched from left to right, and the search goes on after each object type found.
-/

namespace ClassCoupling.ClassFile.Descriptor

def isWordChar (c : Char) : Bool := c.isAlphanum || c = '_'

/-- The longest word at the front, possibly empty, and what follows it. -/
def word (cs : List Char) : List Char × List Char :=
  (cs.takeWhile isWordChar, cs.dropWhile isWordChar)

theorem length_word_snd_le (cs : List Char) : (word cs).2.length ≤ cs.length :=
  (List.dropWhile_sublist _).length_le

/-- As many `/` with a word behind as there are. -/
def furtherWords : List Char → List Char × List Char
  | [] => ([], [])
  | c :: cs =>
    if c = '/' ∧ (word cs).1 ≠ [] then
      let (more, rest) := furtherWords (word cs).2
      (c :: (word cs).1 ++ more, rest)
    else ([], c :: cs)
termination_by cs => cs.length
decreasing_by
  have := length_word_snd_le cs
  simp only [List.length_cons]
  omega

theorem length_furtherWords_snd_le (cs : List Char) : (furtherWords cs).2.length ≤ cs.length := by
  fun_induction furtherWords cs with
  | case1 => simp
  | case2 c cs h more rest hrest ih =>
    have := length_word_snd_le cs
    simp only [hrest, List.length_cons] at ih ⊢
    omega
  | case3 => simp

/-- A `$` with a word behind, if there is one. -/
def innerWord : List Char → List Char × List Char
  | [] => ([], [])
  | c :: cs =>
    if c = '$' ∧ (word cs).1 ≠ [] then (c :: (word cs).1, (word cs).2) else ([], c :: cs)

theorem length_innerWord_snd_le (cs : List Char) : (innerWord cs).2.length ≤ cs.length := by
  cases cs with
  | nil => simp [innerWord]
  | cons c cs =>
    have := length_word_snd_le cs
    simp only [innerWord]
    split <;> simp only [List.length_cons] <;> omega

def className? (cs : List Char) : Option (List Char × List Char) :=
  if (word cs).1 = [] then none
  else
    let further := furtherWords (word cs).2
    let inner := innerWord further.2
    some ((word cs).1 ++ further.1 ++ inner.1, inner.2)

theorem length_of_className?_eq_some {cs name rest : List Char}
    (h : className? cs = some (name, rest)) : rest.length ≤ cs.length := by
  have hw := length_word_snd_le cs
  have hf := length_furtherWords_snd_le (word cs).2
  have hi := length_innerWord_snd_le (furtherWords (word cs).2).2
  unfold className? at h
  split at h
  · simp at h
  · simp only [Option.some.injEq, Prod.mk.injEq] at h
    obtain ⟨_, rfl⟩ := h
    omega

/-- Skips type arguments: `<`, at least one character other than `>`, and `>`. -/
def skipArguments : List Char → List Char
  | [] => []
  | c :: cs =>
    if c = '<' ∧ cs.head? ≠ some '>' ∧ '>' ∈ cs then (cs.dropWhile (· ≠ '>')).tail else c :: cs

theorem length_skipArguments_le (cs : List Char) : (skipArguments cs).length ≤ cs.length := by
  cases cs with
  | nil => simp [skipArguments]
  | cons c cs =>
    have := (List.dropWhile_sublist (l := cs) (· ≠ '>')).length_le
    simp only [skipArguments]
    split <;> simp only [List.length_tail, List.length_cons] <;> omega

/-- The class name of an object type at the front, and the text after the type. -/
def objectType? (cs : List Char) : Option (List Char × List Char) :=
  if cs.head? = some 'L' then
    match className? cs.tail with
    | some (name, rest) =>
      if (skipArguments rest).head? = some ';' then some (name, (skipArguments rest).tail) else none
    | none => none
  else none

theorem length_of_objectType?_eq_some {cs name rest : List Char}
    (h : objectType? cs = some (name, rest)) : rest.length < cs.length := by
  unfold objectType? at h
  split at h
  · next hL =>
    split at h
    · next _ after heq =>
      split at h
      · have hc := length_of_className?_eq_some heq
        have hs := length_skipArguments_le after
        have hpos := List.length_pos_iff_exists_mem.mpr ⟨_, List.mem_of_head? hL⟩
        simp only [Option.some.injEq, Prod.mk.injEq] at h
        obtain ⟨_, rfl⟩ := h
        simp only [List.length_tail] at hc ⊢
        omega
      · simp at h
    · simp at h
  · simp at h

/-- The class names of all object types in a text, as written. -/
def classNames (cs : List Char) : List (List Char) :=
  match cs with
  | [] => []
  | c :: tail =>
    match _h : objectType? (c :: tail) with
    | some (name, rest) => name :: classNames rest
    | none => classNames tail
termination_by cs.length
decreasing_by
  · exact length_of_objectType?_eq_some ‹_›
  · simp

end ClassCoupling.ClassFile.Descriptor
