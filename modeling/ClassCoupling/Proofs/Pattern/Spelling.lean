import ClassCoupling.Pattern.Basic
import ClassCoupling.Proofs.Text.Bytes
import ClassCoupling.Proofs.Text.Cut

/-!
# What a pattern spells

A pattern spells the texts that come of putting some text in place of each of its stars, and every
form that a pattern is compiled into accepts exactly these. The general form looks for its parts
from the left and takes the first place for each: a later place would only leave less text for the
parts that follow.
-/

namespace ClassCoupling.Pattern

variable {pattern text head tail part rest : List Char} {middle : List (List Char)}

/-! ## Filling in the stars -/

/-- The pattern with a text in place of each star, in order. -/
def fill : List Char → List (List Char) → List Char
  | [], _ => []
  | c :: pattern, gaps =>
    if c = '*' then gaps.headD [] ++ fill pattern gaps.tail else c :: fill pattern gaps

def Spells (pattern text : List Char) : Prop :=
  ∃ gaps, gaps.length = pattern.count '*' ∧ text = fill pattern gaps

theorem spells_nil : Spells [] text ↔ text = [] := by
  constructor
  · intro spelled
    obtain ⟨gaps, -, rfl⟩ := spelled
    rfl
  · rintro rfl
    exact ⟨[], rfl, rfl⟩

theorem spells_star :
    Spells ('*' :: pattern) text ↔ ∃ gap rest, text = gap ++ rest ∧ Spells pattern rest := by
  constructor
  · intro spelled
    obtain ⟨gaps, count, rfl⟩ := spelled
    rw [List.count_cons_self] at count
    obtain ⟨gap, gaps, rfl⟩ := List.exists_cons_of_length_eq_add_one count
    exact ⟨gap, fill pattern gaps, by simp [fill], gaps, Nat.succ.inj count, rfl⟩
  · intro spelled
    obtain ⟨gap, _, rfl, gaps, count, rfl⟩ := spelled
    exact ⟨gap :: gaps, by simp [count], by simp [fill]⟩

theorem spells_cons {c : Char} (plain : c ≠ '*') :
    Spells (c :: pattern) text ↔ ∃ rest, text = c :: rest ∧ Spells pattern rest := by
  constructor
  · intro spelled
    obtain ⟨gaps, count, rfl⟩ := spelled
    rw [List.count_cons_of_ne plain] at count
    exact ⟨fill pattern gaps, by simp [fill, plain], gaps, count, rfl⟩
  · intro spelled
    obtain ⟨_, rfl, gaps, count, rfl⟩ := spelled
    exact ⟨gaps, by rw [List.count_cons_of_ne plain, count], by simp [fill, plain]⟩

theorem spells_append {first second : List Char} :
    Spells (first ++ second) text ↔
      ∃ front back, text = front ++ back ∧ Spells first front ∧ Spells second back := by
  induction first generalizing text with
  | nil => simp [spells_nil]
  | cons c first ih =>
    by_cases star : c = '*'
    · subst star
      simp only [List.cons_append, spells_star, ih]
      constructor
      · intro spelled
        obtain ⟨gap, _, rfl, front, back, rfl, left, right⟩ := spelled
        exact ⟨gap ++ front, back, by simp, ⟨gap, front, rfl, left⟩, right⟩
      · intro spelled
        obtain ⟨_, back, rfl, ⟨gap, front, rfl, left⟩, right⟩ := spelled
        exact ⟨gap, front ++ back, by simp, front, back, rfl, left, right⟩
    · simp only [List.cons_append, spells_cons star, ih]
      constructor
      · intro spelled
        obtain ⟨_, rfl, front, back, rfl, left, right⟩ := spelled
        exact ⟨c :: front, back, rfl, ⟨front, rfl, left⟩, right⟩
      · intro spelled
        obtain ⟨_, back, rfl, ⟨front, rfl, left⟩, right⟩ := spelled
        exact ⟨front ++ back, rfl, front, back, rfl, left, right⟩

theorem spells_literal (plain : '*' ∉ pattern) : Spells pattern text ↔ text = pattern := by
  induction pattern generalizing text with
  | nil => exact spells_nil
  | cons c pattern ih =>
    rw [List.mem_cons, not_or] at plain
    rw [spells_cons (Ne.symm plain.1)]
    simp [ih plain.2]

/-- Two stars in a row spell what one spells. -/
theorem spells_stars {first second : List Char} :
    Spells (first ++ '*' :: '*' :: second) text ↔ Spells (first ++ '*' :: second) text := by
  have once : ∀ back, Spells ('*' :: '*' :: second) back ↔ Spells ('*' :: second) back := by
    intro back
    simp only [spells_star]
    constructor
    · intro spelled
      obtain ⟨gap, _, rfl, more, rest, rfl, right⟩ := spelled
      exact ⟨gap ++ more, rest, by simp, right⟩
    · intro spelled
      obtain ⟨gap, rest, rfl, right⟩ := spelled
      exact ⟨gap, rest, rfl, [], rest, rfl, right⟩
  simp only [spells_append, once]

/-! ## Parts in order -/

/-- The parts stand in the text one after the other, with any text around them. -/
def InOrder : List (List Char) → List Char → Prop
  | [], _ => True
  | part :: more, text => ∃ before rest, text = before ++ part ++ rest ∧ InOrder more rest

/-- The text begins with one part and ends with another, and the rest stands between them. -/
def Framed (head : List Char) (middle : List (List Char)) (tail text : List Char) : Prop :=
  ∃ inner, text = head ++ inner ++ tail ∧ InOrder middle inner

theorem InOrder.append_left (before : List Char) (inOrder : InOrder middle text) :
    InOrder middle (before ++ text) := by
  cases middle with
  | nil => trivial
  | cons part more =>
    obtain ⟨front, rest, rfl, inOrder⟩ := inOrder
    exact ⟨before ++ front, rest, by simp, inOrder⟩

theorem inOrder_nil_cons : InOrder ([] :: middle) text ↔ InOrder middle text := by
  constructor
  · intro inOrder
    obtain ⟨before, rest, rfl, inOrder⟩ := inOrder
    simpa using inOrder.append_left before
  · intro inOrder
    exact ⟨[], text, rfl, inOrder⟩

theorem inOrder_filter : InOrder (middle.filter (· ≠ [])) text ↔ InOrder middle text := by
  induction middle generalizing text with
  | nil => rfl
  | cons part middle ih =>
    by_cases empty : part = []
    · subst empty
      simp [inOrder_nil_cons, ← ih]
    · rw [List.filter_cons_of_pos (by simpa using empty)]
      simp only [InOrder, ih]

/-- What the pattern spells whose parts between the stars are these. -/
theorem spells_intercalate (middle : List (List Char))
    (plain : ∀ part ∈ head :: (middle ++ [tail]), '*' ∉ part) :
    Spells (['*'].intercalate (head :: (middle ++ [tail]))) text ↔
      Framed head middle tail text := by
  induction middle generalizing head text with
  | nil =>
    have joined : ['*'].intercalate [head, tail] = head ++ '*' :: tail := by
      simp [List.intercalate]
    have plainHead : '*' ∉ head := plain head (by simp)
    have plainTail : '*' ∉ tail := plain tail (by simp)
    simp [joined, spells_append, spells_star, spells_literal plainHead, spells_literal plainTail,
      Framed, InOrder]
  | cons part middle ih =>
    rw [List.forall_mem_cons] at plain
    have joined : ['*'].intercalate (head :: part :: (middle ++ [tail])) =
        head ++ '*' :: ['*'].intercalate (part :: (middle ++ [tail])) := by
      simp [List.intercalate]
    rw [List.cons_append, joined]
    simp only [spells_append, spells_star, spells_literal plain.1, ih plain.2]
    constructor
    · intro spelled
      obtain ⟨_, _, rfl, rfl, gap, _, rfl, inner, rfl, inOrder⟩ := spelled
      exact ⟨gap ++ part ++ inner, by simp, gap, inner, rfl, inOrder⟩
    · intro framed
      obtain ⟨_, rfl, gap, inner, rfl, inOrder⟩ := framed
      exact ⟨head, gap ++ part ++ inner ++ tail, by simp, rfl, gap, part ++ inner ++ tail, by simp,
        inner, rfl, inOrder⟩

/-! ## Searching from the left -/

theorem after?_eq_some (found : after? part text = some rest) :
    ∃ before, text = before ++ part ++ rest ∧
      ∀ before' rest', text = before' ++ part ++ rest' → before.length ≤ before'.length := by
  induction text with
  | nil =>
    simp only [after?, Option.ite_none_right_eq_some, Option.some.injEq] at found
    obtain ⟨rfl, rfl⟩ := found
    exact ⟨[], rfl, fun _ _ _ => Nat.zero_le _⟩
  | cons c text ih =>
    rw [after?] at found
    split at found
    next here =>
      cases found
      obtain ⟨rest, whole⟩ := Text.isPrefixOf_iff_append.mp here
      refine ⟨[], ?_, fun _ _ _ => Nat.zero_le _⟩
      rw [whole, List.drop_left, List.nil_append]
    next not_here =>
      obtain ⟨before, rfl, first⟩ := ih found
      refine ⟨c :: before, rfl, ?_⟩
      intro before' rest' there
      cases before' with
      | nil =>
        rw [List.nil_append] at there
        exact absurd (Text.isPrefixOf_iff_append.mpr ⟨rest', there⟩) not_here
      | cons d before' =>
        rw [List.cons_append, List.cons_append, List.cons.injEq] at there
        exact Nat.succ_le_succ (first before' rest' there.2)

theorem ne_of_after?_eq_none (missing : after? part text = none) (before rest : List Char) :
    text ≠ before ++ part ++ rest := by
  induction text generalizing before with
  | nil =>
    intro there
    simp only [List.nil_eq, List.append_eq_nil_iff] at there
    simp [after?, there.1.2] at missing
  | cons c text ih =>
    rw [after?] at missing
    split at missing
    next => cases missing
    next not_here =>
      intro there
      cases before with
      | nil =>
        rw [List.nil_append] at there
        exact not_here (Text.isPrefixOf_iff_append.mpr ⟨rest, there⟩)
      | cons d before =>
        rw [List.cons_append, List.cons_append, List.cons.injEq] at there
        exact ih missing before there.2

/-- The rest of a text after the parts, each looked for from the left in what the last one left. -/
def afterAll? (middle : List (List Char)) (text : List Char) : Option (List Char) :=
  middle.foldlM (fun rest part => after? part rest) text

theorem afterAll?_cons :
    afterAll? (part :: middle) text = (after? part text).bind (afterAll? middle) :=
  List.foldlM_cons

/-- Taking the first place for each part finds all of them if they can be found at all. -/
theorem isSome_afterAll?_iff : (afterAll? middle text).isSome = true ↔ InOrder middle text := by
  induction middle generalizing text with
  | nil => exact ⟨fun _ => trivial, fun _ => rfl⟩
  | cons part middle ih =>
    rw [afterAll?_cons]
    cases found : after? part text with
    | none =>
      refine ⟨fun none => (by cases none), ?_⟩
      intro inOrder
      obtain ⟨before, rest, there, -⟩ := inOrder
      exact absurd there (ne_of_after?_eq_none found before rest)
    | some rest =>
      obtain ⟨before, here, first⟩ := after?_eq_some found
      rw [Option.bind_some, ih]
      refine ⟨fun inOrder => ⟨before, rest, here, inOrder⟩, ?_⟩
      intro inOrder
      obtain ⟨before', rest', there, inOrder⟩ := inOrder
      -- What is left after a later place is the end of what is left after the first one.
      have shorter := first before' rest' there
      have suffix : rest' <:+ rest := by
        apply List.suffix_of_suffix_length_le ⟨before' ++ part, there.symm⟩
          ⟨before ++ part, here.symm⟩
        have lengths := congrArg List.length (here.symm.trans there)
        simp only [List.length_append] at lengths
        omega
      obtain ⟨between, rfl⟩ := suffix
      exact inOrder.append_left between

/-! ## The compiled forms -/

/-- What a compiled pattern asks of a text. -/
def Matcher.Holds : Matcher → List Char → Prop
  | exactly literal, text => text = literal
  | startingWith head, text => Framed head [] [] text
  | endingWith tail, text => Framed [] [] tail text
  | containing part, text => Framed [] [part] [] text
  | segments head middle tail, text => Framed head middle tail text

/-- Without an overlap, a text that begins with one part and ends with another has a middle. -/
theorem framed_guard_iff :
    head.length + tail.length ≤ text.length ∧ head.isPrefixOf text = true ∧
        tail.isSuffixOf text = true ↔
      ∃ inner, text = head ++ inner ++ tail := by
  rw [Text.isPrefixOf_iff_append, Text.isSuffixOf_iff_append]
  constructor
  · intro fits
    obtain ⟨enough, ⟨back, rfl⟩, front, ends⟩ := fits
    have apart : tail <:+ back := by
      apply List.suffix_of_suffix_length_le ⟨front, ends.symm⟩ ⟨head, rfl⟩
      rw [List.length_append] at enough
      omega
    obtain ⟨inner, rfl⟩ := apart
    exact ⟨inner, by simp⟩
  · intro framed
    obtain ⟨inner, rfl⟩ := framed
    refine ⟨?_, ⟨inner ++ tail, by simp⟩, head ++ inner, rfl⟩
    simp only [List.length_append]
    omega

theorem accepts_segments_append (inner : List Char) :
    (Matcher.segments head middle tail).accepts (head ++ inner ++ tail) =
      (afterAll? middle inner).isSome := by
  obtain ⟨enough, begins, ends⟩ := framed_guard_iff.mpr ⟨inner, rfl⟩
  have between : ((head ++ inner ++ tail).drop head.length).take
      ((head ++ inner ++ tail).length - head.length - tail.length) = inner := by
    simp
  rw [Matcher.accepts, between, decide_eq_true enough, begins, ends]
  rfl

theorem accepts_segments_eq_false (unframed : ¬ ∃ inner, text = head ++ inner ++ tail) :
    (Matcher.segments head middle tail).accepts text = false := by
  rw [← framed_guard_iff] at unframed
  rw [Matcher.accepts, Bool.and_eq_false_imp]
  intro fits
  simp only [Bool.and_eq_true, decide_eq_true_eq] at fits
  exact absurd ⟨fits.1.1, fits.1.2, fits.2⟩ unframed

theorem framed_append (inner : List Char) :
    Framed head middle tail (head ++ inner ++ tail) ↔ InOrder middle inner := by
  constructor
  · intro framed
    obtain ⟨inner', same, inOrder⟩ := framed
    rw [List.append_assoc, List.append_assoc, List.append_cancel_left_eq,
      List.append_cancel_right_eq] at same
    exact same ▸ inOrder
  · intro inOrder
    exact ⟨inner, rfl, inOrder⟩

theorem Matcher.accepts_iff_holds (matcher : Matcher) (text : List Char) :
    matcher.accepts text = true ↔ matcher.Holds text := by
  cases matcher with
  | exactly literal => simp [accepts, Holds]
  | startingWith head =>
    rw [accepts, Text.isPrefixOf_iff_append]
    simp [Holds, Framed, InOrder]
  | endingWith tail =>
    rw [accepts, Text.isSuffixOf_iff_append]
    simp [Holds, Framed, InOrder]
  | containing part =>
    have single : (afterAll? [part] text).isSome = true ↔ InOrder [part] text :=
      isSome_afterAll?_iff
    simpa [afterAll?, accepts, Holds, Framed] using single
  | segments head middle tail =>
    by_cases framed : ∃ inner, text = head ++ inner ++ tail
    · obtain ⟨inner, rfl⟩ := framed
      rw [accepts_segments_append, isSome_afterAll?_iff]
      exact (framed_append inner).symm
    · rw [accepts_segments_eq_false framed]
      refine ⟨fun accepted => (by cases accepted), ?_⟩
      intro holds
      obtain ⟨inner, whole, -⟩ := holds
      exact absurd ⟨inner, whole⟩ framed

/-- The form that fits the parts asks for what the pattern with these parts spells. -/
theorem holds_ofParts_iff {parts : List (List Char)} (some_part : parts ≠ [])
    (plain : ∀ part ∈ parts, '*' ∉ part) :
    (Matcher.ofParts parts).Holds text ↔ Spells (['*'].intercalate parts) text := by
  fun_cases Matcher.ofParts parts with
  | case1 => exact absurd rfl some_part
  | case2 literal =>
    have plainLiteral : '*' ∉ literal := plain literal (by simp)
    simp [Matcher.Holds, List.intercalate, spells_literal plainLiteral]
  | case3 head => exact (spells_intercalate [] plain).symm
  | case4 tail => exact (spells_intercalate [] plain).symm
  | case5 part => exact (spells_intercalate [part] plain).symm
  | case6 head more several =>
    have last : more.dropLast ++ [more.getLastD []] = more := by
      rw [List.getLastD_eq_getLast?, List.getLast?_eq_some_getLast several]
      exact List.dropLast_append_getLast several
    rw [← last] at plain
    conv_rhs => rw [← last, spells_intercalate _ plain]
    exact exists_congr fun inner => and_congr_right' inOrder_filter

/-- A compiled pattern accepts what the pattern spells. -/
theorem accepts_compile_iff (pattern text : List Char) :
    (Matcher.compile pattern).accepts text = true ↔ Spells pattern text := by
  have plain : ∀ part ∈ pattern.splitOn '*', '*' ∉ part :=
    fun part listed => Text.not_mem_of_mem_splitOn listed
  rw [Matcher.accepts_iff_holds, Matcher.compile,
    holds_ofParts_iff (List.splitOn_ne_nil _ _) plain, List.intercalate_splitOn]

/-! ## The search in bytes -/

/-- Looks for the parts by the bytes of the text that remains. There is no answer if the text would
have to be cut outside of its range or inside a character. -/
def searchBytes? : List String → String → Option Bool
  | [], _ => some true
  | part :: more, remaining =>
    match Text.findBytes? part remaining with
    | some pos =>
      (Text.slice? remaining (pos + part.utf8ByteSize) remaining.utf8ByteSize).bind
        (searchBytes? more)
    | none => some false

/-- What the general form decides when it counts in bytes. -/
def segmentsByBytes? (head : String) (middle : List String) (tail text : String) : Option Bool :=
  if text.utf8ByteSize < head.utf8ByteSize + tail.utf8ByteSize then some false
  else if Text.startsWith head text && Text.endsWith tail text then
    (Text.slice? text head.utf8ByteSize (text.utf8ByteSize - tail.utf8ByteSize)).bind
      (searchBytes? middle)
  else some false

/-- The answer of a compiled pattern, the general form counting in bytes. -/
def Matcher.acceptsByBytes? : Matcher → String → Option Bool
  | segments head middle tail, text =>
    segmentsByBytes? (.ofList head) (middle.map .ofList) (.ofList tail) text
  | matcher, text => some (matcher.accepts text.toList)

theorem searchBytes?_eq (middle : List String) (text : String) :
    searchBytes? middle text =
      some (afterAll? (middle.map String.toList) text.toList).isSome := by
  induction middle generalizing text with
  | nil => rfl
  | cons part middle ih =>
    rw [searchBytes?, List.map_cons, afterAll?_cons]
    cases found : after? part.toList text.toList with
    | none =>
      have absent : ∀ before after, text ≠ before ++ part ++ after := by
        intro before after there
        apply ne_of_after?_eq_none found before.toList after.toList
        rw [there, String.toList_append, String.toList_append]
      rw [Text.findBytes?_eq_none absent]
      rfl
    | some rest =>
      obtain ⟨before, here, first⟩ := after?_eq_some found
      have whole : text = String.ofList before ++ part ++ String.ofList rest := by
        simp [← String.toList_inj, here]
      have position : Text.findBytes? part text = some (String.ofList before).utf8ByteSize := by
        apply Text.findBytes?_eq_some whole
        intro before' after there
        rw [String.toList_ofList]
        apply first before'.toList after.toList
        rw [there, String.toList_append, String.toList_append]
      have cut := Text.slice?_append (String.ofList before ++ part) (String.ofList rest) ""
      rw [String.append_empty, ← whole, String.utf8ByteSize_append] at cut
      have size : text.utf8ByteSize = (String.ofList before).utf8ByteSize + part.utf8ByteSize +
          (String.ofList rest).utf8ByteSize := by
        conv_lhs => rw [whole, String.utf8ByteSize_append, String.utf8ByteSize_append]
      rw [position]
      dsimp only
      rw [size, cut, Option.bind_some, ih, String.toList_ofList]
      rfl

section Segments

variable {head tail text : String} {middle : List String}

theorem segmentsByBytes?_append (inner : String) :
    segmentsByBytes? head middle tail (head ++ inner ++ tail) = searchBytes? middle inner := by
  have size : (head ++ inner ++ tail).utf8ByteSize =
      head.utf8ByteSize + inner.utf8ByteSize + tail.utf8ByteSize := by
    rw [String.utf8ByteSize_append, String.utf8ByteSize_append]
  have enough : ¬ (head ++ inner ++ tail).utf8ByteSize < head.utf8ByteSize + tail.utf8ByteSize := by
    omega
  have begins : Text.startsWith head (head ++ inner ++ tail) = true :=
    Text.startsWith_iff.mpr ⟨inner ++ tail, String.append_assoc⟩
  have ends : Text.endsWith tail (head ++ inner ++ tail) = true :=
    Text.endsWith_iff.mpr ⟨head ++ inner, rfl⟩
  rw [segmentsByBytes?, if_neg enough, begins, ends, size, Nat.add_sub_cancel, Text.slice?_append]
  rfl

/-- The bytes of the two ends overlap if their characters do. -/
theorem segmentsByBytes?_eq_false (unframed : ¬ ∃ inner, text = head ++ inner ++ tail) :
    segmentsByBytes? head middle tail text = some false := by
  unfold segmentsByBytes?
  split
  · rfl
  next enough =>
    split
    next fits =>
      rw [Bool.and_eq_true, Text.startsWith_iff, Text.endsWith_iff] at fits
      obtain ⟨⟨back, begins⟩, front, ends⟩ := fits
      have apart : head.utf8ByteSize ≤ front.utf8ByteSize := by
        rw [ends, String.utf8ByteSize_append] at enough
        omega
      obtain ⟨inner, rfl⟩ := Text.exists_append_of_utf8ByteSize_le (begins.symm.trans ends) apart
      exact absurd ⟨inner, ends⟩ unframed
    next => rfl

end Segments

/-- Counting in bytes never fails and never makes a difference. -/
theorem Matcher.acceptsByBytes?_eq (matcher : Matcher) (text : String) :
    matcher.acceptsByBytes? text = some (matcher.accepts text.toList) := by
  cases matcher with
  | segments head middle tail =>
    rw [acceptsByBytes?]
    by_cases framed : ∃ inner, text = .ofList head ++ inner ++ .ofList tail
    · obtain ⟨inner, rfl⟩ := framed
      rw [segmentsByBytes?_append, searchBytes?_eq]
      simp only [String.toList_append, String.toList_ofList, accepts_segments_append]
      simp [Function.comp_def]
    · rw [segmentsByBytes?_eq_false framed, accepts_segments_eq_false]
      intro whole
      obtain ⟨inner, whole⟩ := whole
      exact framed ⟨.ofList inner, by simp [← String.toList_inj, whole]⟩
  | exactly | startingWith | endingWith | containing => rfl

/-! ## Patterns and texts -/

/-- A pattern accepts the texts that it spells. It does not matter how many stars stand in a row,
the texts before the first and after the last star never overlap, and the search in bytes gives the
same answer without ever cutting a text where it cannot be cut. -/
theorem accepts_what_is_spelled (pattern text : String) :
    ((compile pattern).accepts text = true ↔
      ∃ gaps, gaps.length = pattern.toList.count '*' ∧ text.toList = fill pattern.toList gaps) ∧
    (∀ before after, pattern = before ++ "**" ++ after →
      (compile pattern).accepts text = (compile (before ++ "*" ++ after)).accepts text) ∧
    (∀ head between tail, pattern = head ++ between ++ tail → '*' ∉ head.toList →
      '*' ∉ tail.toList → (compile pattern).accepts text = true →
      ∃ middle, text = head ++ middle ++ tail) ∧
    (compile pattern).matcher.acceptsByBytes? text = some ((compile pattern).accepts text) := by
  have spells : ∀ pattern : String, (compile pattern).accepts text = true ↔
      Spells pattern.toList text.toList := fun pattern => accepts_compile_iff _ _
  refine ⟨spells pattern, ?_, ?_, Matcher.acceptsByBytes?_eq _ _⟩
  · rintro before after rfl
    rw [Bool.eq_iff_iff, spells, spells]
    simpa using spells_stars
  · rintro head between tail rfl plainHead plainTail accepted
    rw [spells, String.toList_append, String.toList_append, spells_append] at accepted
    obtain ⟨_, _, whole, spelled, back⟩ := accepted
    obtain ⟨_, middle, rfl, front, -⟩ := spells_append.mp spelled
    rw [spells_literal plainHead] at front
    rw [spells_literal plainTail] at back
    exact ⟨.ofList middle, by simp [← String.toList_inj, whole, front, back]⟩

theorem accepts_what_is_spelled_accented :
    (compile "ü*ab*ab**ü").accepts "üabéabü" = true ∧
    (compile "ü*ab*ab*ü").accepts "üabéabü" = true ∧
    (∃ middle, "üabéabü" = "ü" ++ middle ++ "ü") ∧
    (compile "ü*ab*ab**ü").matcher.acceptsByBytes? "üabéabü" = some true ∧
    (compile "ü*ü").accepts "ü" = false := by
  obtain ⟨spelled, stars, ends, bytes⟩ := accepts_what_is_spelled "ü*ab*ab**ü" "üabéabü"
  have accepted : (compile "ü*ab*ab**ü").accepts "üabéabü" = true :=
    spelled.mpr ⟨[[], ['é'], [], []], by decide, by decide⟩
  rw [accepted] at bytes
  refine ⟨accepted, ?_, ?_, bytes, by decide +kernel⟩
  · exact (stars "ü*ab*ab" "ü" (by decide)).symm.trans accepted
  · exact ends "ü" "*ab*ab**" "ü" (by decide) (by decide) (by decide) accepted

end ClassCoupling.Pattern
