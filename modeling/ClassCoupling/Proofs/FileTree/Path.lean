import ClassCoupling.Path
import ClassCoupling.Proofs.Text.Cut
import ClassCoupling.Proofs.Text.Utf8
import Mathlib.Data.List.TakeWhile

/-!
# Paths and their parts

A path that is made from another one begins with the same parts, up to parts that mean nothing.
-/

namespace ClassCoupling.Path

open Text

variable {path name : String} {front parts : List String}

theorem isAbsolute_append (some_text : path ≠ "") (more : String) :
    isAbsolute (path ++ more) = isAbsolute path := by
  unfold isAbsolute startsWith
  rw [String.toList_append]
  cases cs : path.toList with
  | nil => exact absurd (String.toList_eq_nil_iff.mp cs) some_text
  | cons c rest => rfl

/-- Two ways to write parts of which only the first ones mean something. The second one ends in
nothing else, or in slashes. -/
def AgreeUpToTrivial (parts other : List String) : Prop :=
  ∃ core idle slashes, parts = core ++ idle ∧ other = core ++ slashes ∧
    (∀ part ∈ idle, isTrivial part = true) ∧ ∀ part ∈ slashes, part = ""

/-! ## The parent of a path -/

theorem exists_join_append (separator : String) (front more : List String) :
    ∃ rest, Text.join separator (front ++ more) = Text.join separator front ++ rest := by
  rcases eq_or_ne front [] with rfl | some_front
  · exact ⟨Text.join separator more, by simp [Text.join]⟩
  rcases eq_or_ne more [] with rfl | some_more
  · exact ⟨"", by simp⟩
  · refine ⟨separator ++ Text.join separator more, ?_⟩
    rw [Text.join, String.intercalate_append_of_ne_nil some_front some_more, String.append_assoc]
    rfl

theorem exists_dropTrivialEnd (parts : List String) :
    ∃ idle, parts = dropTrivialEnd parts ++ idle ∧ ∀ part ∈ idle, isTrivial part = true := by
  refine ⟨(parts.reverse.takeWhile isTrivial).reverse, ?_, ?_⟩
  · rw [dropTrivialEnd, ← List.reverse_append, List.takeWhile_append_dropWhile, List.reverse_reverse]
  · intro part idle
    rw [List.mem_reverse] at idle
    exact List.mem_takeWhile_imp idle

theorem mem_of_mem_dropTrivialEnd {part : String} (listed : part ∈ dropTrivialEnd parts) :
    part ∈ parts := by
  obtain ⟨idle, whole, -⟩ := exists_dropTrivialEnd parts
  rw [whole]
  exact List.mem_append_left _ listed

theorem dropTrivialEnd_append_name (named : isTrivial name = false) :
    dropTrivialEnd (front ++ [name]) = front ++ [name] := by
  simp [dropTrivialEnd, named]

theorem dropTrivialEnd_cons {part : String} (trivial : isTrivial part = true) :
    dropTrivialEnd (part :: parts) =
      if dropTrivialEnd parts = [] then [] else part :: dropTrivialEnd parts := by
  simp only [dropTrivialEnd, List.reverse_cons, List.dropWhile_append, List.reverse_eq_nil_iff]
  by_cases idle : parts.reverse.dropWhile isTrivial = []
  · simp [idle, trivial]
  · simp [idle]

/-- A path, its head and what is left of it. -/
inductive Headed : String → Option Component → String → Prop
  | root (body : String) : Headed ("/" ++ body) (some .root) body
  | dot : Headed "." (some .current) ""
  | current (rest : String) : Headed ("." ++ "/" ++ rest) (some .current) ("/" ++ rest)
  | bare (path : String) : Headed path none path

theorem headed_splitHead (path : String) : Headed path (splitHead path).1 (splitHead path).2 := by
  unfold splitHead
  split
  next rest cs =>
    obtain rfl : path = "/" ++ String.ofList rest := by simp [← String.toList_inj, cs]
    exact .root _
  next cs =>
    obtain rfl : path = "." := String.toList_inj.mp cs
    exact .dot
  next rest cs =>
    obtain rfl : path = "." ++ "/" ++ String.ofList rest := by simp [← String.toList_inj, cs]
    have body : String.ofList ('/' :: rest) = "/" ++ String.ofList rest := by simp
    rw [body]
    exact .current _
  next => exact .bare path

/-- The text of the head of a path. -/
def headText : Option Component → String
  | some .root => "/"
  | some .current => "."
  | _ => ""

theorem Headed.whole {head : Option Component} {body : String} (headed : Headed path head body) :
    path = headText head ++ body := by
  cases headed with
  | root => rfl
  | dot => rfl
  | current rest => exact String.append_assoc
  | bare => exact String.empty_append.symm

theorem parent?_eq_some (parts : split '/' (splitHead path).2 = front ++ [name])
    (named : isTrivial name = false) :
    parent? path =
      some (headText (splitHead path).1 ++ Text.join "/" (dropTrivialEnd front)) := by
  unfold parent?
  dsimp only
  rw [parts, dropTrivialEnd_append_name named]
  split
  next ends _ => exact absurd ends (by simp)
  next ends _ => exact absurd ends (by simp)
  next =>
    rw [List.dropLast_concat]
    rfl

theorem split_slash (first rest : String) :
    split '/' (first ++ "/" ++ rest) = split '/' first ++ split '/' rest :=
  split_append '/' first rest

theorem split_join_slash (some_part : parts ≠ []) (bare : ∀ part ∈ parts, '/' ∉ part.toList) :
    split '/' (Text.join "/" parts) = parts :=
  split_join some_part bare

/-- Parts after a first one, once with and once without those at the end that mean nothing. -/
theorem agreeUpToTrivial_join (first : String) (bare : ∀ part ∈ front, '/' ∉ part.toList) :
    AgreeUpToTrivial (split '/' first ++ front)
      (split '/' (first ++ "/" ++ Text.join "/" (dropTrivialEnd front))) := by
  obtain ⟨idle, whole, trivial⟩ := exists_dropTrivialEnd front
  rw [split_slash]
  by_cases kept : dropTrivialEnd front = []
  · refine ⟨split '/' first, front, split '/' "", rfl, by rw [kept]; rfl, ?_, by decide⟩
    rw [whole, kept]
    exact trivial
  · rw [split_join_slash kept fun part listed => bare part (mem_of_mem_dropTrivialEnd listed)]
    refine ⟨split '/' first ++ dropTrivialEnd front, idle, [], ?_, by simp, trivial, by simp⟩
    rw [List.append_assoc, ← whole]

theorem Headed.exists_more {head : Option Component} {body : String}
    (headed : Headed path head body) (ends : split '/' body = front ++ [name]) :
    ∃ more, path = headText head ++ Text.join "/" (dropTrivialEnd front) ++ more := by
  obtain ⟨idle, whole, -⟩ := exists_dropTrivialEnd front
  obtain ⟨more, rest⟩ := exists_join_append "/" (dropTrivialEnd front) (idle ++ [name])
  have parts : body = Text.join "/" (split '/' body) := (join_split '/' body).symm
  rw [ends, whole, List.append_assoc, rest] at parts
  exact ⟨more, by rw [headed.whole, parts, String.append_assoc]⟩

theorem exists_of_split_slash (first rest : String) (single : split '/' first = [first])
    (ends : split '/' (first ++ "/" ++ rest) = front ++ [name]) :
    ∃ others, front = first :: others ∧ split '/' rest = others ++ [name] := by
  rw [split_slash, single] at ends
  rcases List.cons_eq_append_iff.mp ends with ⟨rfl, alone⟩ | ⟨others, rfl, rest⟩
  · exact absurd (List.cons.inj alone).2.symm (split_ne_nil _ _)
  · exact ⟨others, rfl, rest⟩

theorem Headed.agreeUpToTrivial {head : Option Component} {body : String}
    (headed : Headed path head body) (ends : split '/' path = front ++ [name])
    (named : isTrivial name = false) :
    ∃ initial, split '/' body = initial ++ [name] ∧
      (headText head ++ Text.join "/" (dropTrivialEnd initial) ≠ "" → AgreeUpToTrivial front
        (split '/' (headText head ++ Text.join "/" (dropTrivialEnd initial)))) := by
  have bare : ∀ part ∈ front, '/' ∉ part.toList := by
    intro part listed
    have inside : part ∈ split '/' path := by
      rw [ends]
      exact List.mem_append_left _ listed
    exact not_mem_of_mem_split inside
  cases headed with
  | root body =>
    obtain ⟨others, rfl, rest⟩ := exists_of_split_slash "" body rfl ends
    exact ⟨others, rest, fun _ => agreeUpToTrivial_join "" (List.forall_mem_cons.mp bare).2⟩
  | dot =>
    obtain ⟨rfl, same⟩ := List.append_inj' (show [] ++ ["."] = front ++ [name] from ends) rfl
    rw [List.singleton_inj] at same
    rw [← same] at named
    exact absurd named (by decide)
  | current body =>
    obtain ⟨others, rfl, rest⟩ := exists_of_split_slash "." body rfl ends
    refine ⟨"" :: others, (split_slash "" body).trans (congrArg (List.cons "") rest), fun _ => ?_⟩
    rw [dropTrivialEnd_cons (by decide)]
    split
    next idle =>
      obtain ⟨_, whole, trivial⟩ := exists_dropTrivialEnd others
      rw [idle, List.nil_append] at whole
      exact ⟨["."], others, [], rfl, by decide, whole ▸ trivial, by simp⟩
    next kept =>
      rw [Text.join, String.intercalate_cons_of_ne_nil kept]
      exact agreeUpToTrivial_join "." (List.forall_mem_cons.mp bare).2
  | bare =>
    refine ⟨front, ends, fun some_text => ?_⟩
    obtain ⟨idle, whole, trivial⟩ := exists_dropTrivialEnd front
    have kept : dropTrivialEnd front ≠ [] := by
      intro none
      rw [none] at some_text
      exact some_text rfl
    have still := fun part listed => bare part (mem_of_mem_dropTrivialEnd listed)
    refine ⟨dropTrivialEnd front, idle, [], whole, ?_, trivial, by simp⟩
    change split '/' ("" ++ Text.join "/" (dropTrivialEnd front)) = _
    rw [String.empty_append, split_join_slash kept still, List.append_nil]

/-- The parent of a path that ends in a name has the parts before the name, up to those that mean
nothing. -/
theorem exists_parent (ends : split '/' path = front ++ [name]) (named : isTrivial name = false) :
    ∃ parent, parent? path = some parent ∧ (∃ more, path = parent ++ more) ∧
      (parent ≠ "" → AgreeUpToTrivial front (split '/' parent)) := by
  have headed := headed_splitHead path
  obtain ⟨initial, rest, agree⟩ := headed.agreeUpToTrivial ends named
  exact ⟨_, parent?_eq_some rest named, headed.exists_more rest, agree⟩

/-! ## Paths below a path -/

theorem not_isAbsolute_join (bare : ∀ part ∈ parts, '/' ∉ part.toList) (full : "" ∉ parts)
    (some_part : parts ≠ []) : isAbsolute (Text.join "/" parts) = false := by
  rw [← Bool.not_eq_true]
  intro absolute
  obtain ⟨back, whole⟩ := startsWith_iff.mp absolute
  have cut : split '/' (Text.join "/" parts) = "" :: split '/' back := by
    rw [whole]
    exact split_slash "" back
  rw [split_join_slash some_part bare] at cut
  rw [cut] at full
  exact full List.mem_cons_self

/-- A path below another one has the parts of both, up to those that mean nothing. -/
theorem exists_split_join (some_text : path ≠ "") (bare : ∀ part ∈ parts, '/' ∉ part.toList)
    (full : "" ∉ parts) (some_part : parts ≠ []) :
    (∃ slash, (slash = "" ∨ slash = "/") ∧
      join path (Text.join "/" parts) = path ++ (slash ++ Text.join "/" parts)) ∧
      ∃ core idle, split '/' path = core ++ idle ∧ (∀ part ∈ idle, isTrivial part = true) ∧
        split '/' (join path (Text.join "/" parts)) = core ++ parts := by
  have relative := not_isAbsolute_join bare full some_part
  have cut := split_join_slash some_part bare
  unfold join
  rw [if_neg (by simp [relative, some_text])]
  split
  next ends =>
    obtain ⟨front, rfl⟩ := endsWith_iff.mp ends
    refine ⟨⟨"", .inl rfl, by simp⟩, split '/' front, [""], ?_, by decide, ?_⟩
    · have closed := split_slash front ""
      rwa [String.append_empty] at closed
    · rw [split_slash, cut]
  next =>
    refine ⟨⟨"/", .inr rfl, String.append_assoc⟩, split '/' path, [], by simp, by simp, ?_⟩
    rw [split_slash, cut]

/-! ## Paths given as text -/

theorem ofNat_toNat_ofNat (b : UInt8) : UInt8.ofNat (Char.ofNat b.toNat).toNat = b := by
  have valid : b.toNat.isValidChar := .inl (Nat.lt_trans b.toNat_lt (by decide))
  have code : (Char.ofNat b.toNat).toNat = b.toNat := by
    rw [Char.ofNat, dif_pos valid]
    rfl
  rw [code, UInt8.ofNat_toNat]

/-- A text is shown as it was given. -/
theorem shown_ofText (text : String) : shown (ofText text) = text := by
  rw [shown, ofText, String.toList_ofList, List.map_map]
  have same : ((fun c : Char => UInt8.ofNat c.toNat) ∘ fun b : UInt8 => Char.ofNat b.toNat) = id :=
    funext ofNat_toNat_ofNat
  rw [same, List.map_id, Utf8.decode_encode]

theorem ofText_append (text more : String) : ofText (text ++ more) = ofText text ++ ofText more := by
  simp [ofText, Utf8.encode]

theorem ofText_injective : Function.Injective ofText :=
  Function.LeftInverse.injective shown_ofText

end ClassCoupling.Path
