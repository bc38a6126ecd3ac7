import ClassCoupling.Proofs.ClassFile.Search

/-!
# Type descriptors

The types of fields and methods, and how they are written. The search finds a class of a type
descriptor if its name has at most one `$`, with a word on both sides of it and no `/` behind. Any
other name is missed, and a part of it behind some `L` may be found in its place.
-/

namespace ClassCoupling.ClassFile

open Descriptor

inductive BasicType where
  | byte
  | char
  | double
  | float
  | int
  | long
  | short
  | boolean
  deriving DecidableEq, Repr

def BasicType.letter : BasicType → Char
  | byte => 'B'
  | char => 'C'
  | double => 'D'
  | float => 'F'
  | int => 'I'
  | long => 'J'
  | short => 'S'
  | boolean => 'Z'

/-- A class by the segments of its name: letters, digits, underscores and dollar signs. -/
structure ClassName where
  segments : List (List Char)
  nonempty : segments ≠ []
  each : ∀ segment ∈ segments, segment ≠ [] ∧ ∀ c ∈ segment, isWordChar c = true ∨ c = '$'

namespace ClassName

def text (name : ClassName) : List Char := ['/'].intercalate name.segments

def dotted (name : ClassName) : String := ClassFile.dotted (String.ofList name.text)

end ClassName

inductive FieldType where
  | basic (type : BasicType)
  | object (name : ClassName)
  | array (element : FieldType)

namespace FieldType

def text : FieldType → List Char
  | basic type => [type.letter]
  | object name => 'L' :: (name.text ++ [';'])
  | array element => '[' :: element.text

def classNames : FieldType → List ClassName
  | basic _ => []
  | object name => [name]
  | array element => element.classNames

end FieldType

/-- The type of a field, or of a method that may return nothing. -/
inductive TypeDescriptor where
  | field (type : FieldType)
  | method (parameters : List FieldType) (result : Option FieldType)

namespace TypeDescriptor

def text : TypeDescriptor → List Char
  | field type => type.text
  | method parameters result =>
    '(' :: (parameters.flatMap FieldType.text ++ ')' :: (result.map FieldType.text).getD ['V'])

def classNames : TypeDescriptor → List ClassName
  | field type => type.classNames
  | method parameters result => (parameters ++ result.toList).flatMap FieldType.classNames

end TypeDescriptor

/-! ## Characters of names -/

theorem ne_of_nameChar {c : Char} (inName : isWordChar c = true ∨ c = '/' ∨ c = '$') :
    c ≠ ';' ∧ c ≠ '<' ∧ c ≠ '.' := by
  rcases inName with isWord | rfl | rfl
  · refine ⟨?_, ?_, ?_⟩ <;> rintro rfl <;> exact absurd isWord (by decide)
  · decide
  · decide

theorem ClassName.mem_text {name : ClassName} {c : Char} (mem : c ∈ name.text) :
    isWordChar c = true ∨ c = '/' ∨ c = '$' := by
  rcases mem_intercalate mem with slash | ⟨segment, listed, mem⟩
  · exact .inr (.inl slash)
  · exact ((name.each segment listed).2 c mem).imp_right .inr

/-- Names without dots stay apart when `/` becomes a dot. -/
theorem dotted_injective {cs ds : List Char} (hc : '.' ∉ cs) (hd : '.' ∉ ds)
    (same : dotted (String.ofList cs) = dotted (String.ofList ds)) : cs = ds := by
  have undone {cs : List Char} (noDot : '.' ∉ cs) :
      Text.replace '.' '/' (dotted (String.ofList cs)) = String.ofList cs := by
    simp only [dotted, Text.replace, String.toList_ofList, List.map_map]
    congr 1
    refine (List.map_congr_left fun c mem => ?_).trans (List.map_id cs)
    have notDot : c ≠ '.' := fun isDot => noDot (isDot ▸ mem)
    by_cases slash : c = '/'
    · simp [slash]
    · simp [slash, notDot]
  have back : String.ofList cs = String.ofList ds := by rw [← undone hc, same, undone hd]
  exact String.ofList_injective back

namespace Descriptor

variable {c : Char} {cs name rest : List Char}

/-! ## Object types in a text -/

theorem classNames_of_none (read : objectType? (c :: cs) = none) :
    classNames (c :: cs) = classNames cs := by
  rw [classNames]
  split
  next found => rw [read] at found; cases found
  next => rfl

theorem classNames_of_some (read : objectType? cs = some (name, rest)) :
    classNames cs = name :: classNames rest := by
  cases cs with
  | nil => cases read
  | cons c cs =>
    rw [classNames]
    split
    next found =>
      rw [read] at found
      cases found
      rfl
    next found => rw [read] at found; cases found

theorem classNames_cons (other : c ≠ 'L') : classNames (c :: cs) = classNames cs :=
  classNames_of_none (by simp [objectType?, other])

/-- Two ways to cut a text at its first semicolon or bracket are the same. -/
theorem eq_of_cut {ds rest' : List Char} {d : Char} (before : ∀ b ∈ cs, b ≠ ';' ∧ b ≠ '<')
    (before' : ∀ b ∈ ds, b ≠ ';' ∧ b ≠ '<') (stop : c = ';' ∨ c = '<') (stop' : d = ';' ∨ d = '<')
    (same : cs ++ c :: rest = ds ++ d :: rest') : cs = ds ∧ c = d ∧ rest = rest' := by
  have differ {b : Char} (other : b ≠ ';' ∧ b ≠ '<') (stop : b = ';' ∨ b = '<') : False :=
    stop.elim other.1 other.2
  induction cs generalizing ds with
  | nil =>
    cases ds with
    | nil => exact ⟨rfl, List.cons.inj same⟩
    | cons b ds =>
      obtain ⟨rfl, -⟩ := List.cons.inj same
      exact (differ (before' _ List.mem_cons_self) stop).elim
  | cons b cs ih =>
    cases ds with
    | nil =>
      obtain ⟨rfl, -⟩ := List.cons.inj same
      exact (differ (before _ List.mem_cons_self) stop').elim
    | cons b' ds =>
      obtain ⟨rfl, tails⟩ := List.cons.inj same
      obtain ⟨rfl, rest⟩ := ih (List.forall_mem_cons.mp before).2
        (List.forall_mem_cons.mp before').2 tails
      exact ⟨rfl, rest⟩

/-- Up to a semicolon, with neither a semicolon nor type arguments before it, an object type takes
all of the text. -/
theorem objectType?_semicolon (closed : ∀ c ∈ cs, c ≠ ';' ∧ c ≠ '<') {after : List Char} :
    objectType? (cs ++ ';' :: rest) = some (name, after) ↔
      cs = 'L' :: name ∧ IsClassName name ∧ after = rest := by
  constructor
  · intro read
    obtain ⟨written, type, split⟩ := objectType?_eq_some_iff.mp read
    have named : IsClassName name := by cases type <;> assumption
    have nameClosed : ∀ c ∈ 'L' :: name, c ≠ ';' ∧ c ≠ '<' := by
      refine List.forall_mem_cons.mpr ⟨by decide, fun c mem => ?_⟩
      have other := ne_of_nameChar (named.mem mem)
      exact ⟨other.1, other.2.1⟩
    cases type with
    | plain _ =>
      simp only [← List.cons_append, List.append_assoc] at split
      obtain ⟨same, -, rfl⟩ := eq_of_cut closed nameClosed (.inl rfl) (.inl rfl) split
      exact ⟨same, named, rfl⟩
    | generic _ _ _ =>
      simp only [← List.cons_append, List.append_assoc] at split
      obtain ⟨-, semicolon, -⟩ := eq_of_cut closed nameClosed (.inl rfl) (.inr rfl) split
      exact absurd semicolon (by decide)
  · rintro ⟨rfl, named, rfl⟩
    simpa using objectType?_append (.plain named) after

theorem objectType?_semicolon_eq_none (closed : ∀ c ∈ cs, c ≠ ';' ∧ c ≠ '<')
    (other : ∀ name, IsClassName name → cs ≠ 'L' :: name) (rest : List Char) :
    objectType? (cs ++ ';' :: rest) = none := by
  refine Option.eq_none_iff_forall_ne_some.mpr fun found read => ?_
  obtain ⟨same, named, -⟩ := (objectType?_semicolon closed).mp read
  exact other _ named same

theorem classNames_semicolon (closed : ∀ c ∈ cs, c ≠ ';' ∧ c ≠ '<') (rest : List Char) :
    classNames (cs ++ ';' :: rest) = classNames (cs ++ [';']) ++ classNames rest := by
  induction cs with
  | nil =>
    have nothing : classNames [';'] = [] := by rw [classNames_cons (by decide), classNames]
    rw [List.nil_append, List.nil_append, classNames_cons (by decide), nothing, List.nil_append]
  | cons c cs ih =>
    by_cases whole : ∃ name, IsClassName name ∧ c :: cs = 'L' :: name
    · obtain ⟨name, named, same⟩ := whole
      have read (rest : List Char) : objectType? (c :: cs ++ ';' :: rest) = some (name, rest) :=
        (objectType?_semicolon closed).mpr ⟨same, named, rfl⟩
      rw [classNames_of_some (read rest), classNames_of_some (read []), classNames]
      rfl
    · have read := objectType?_semicolon_eq_none closed
        fun name named same => whole ⟨name, named, same⟩
      have here (rest : List Char) :
          classNames (c :: cs ++ ';' :: rest) = classNames (cs ++ ';' :: rest) :=
        classNames_of_none (read rest)
      rw [here, here, ih (List.forall_mem_cons.mp closed).2]

/-! ## One class of a descriptor -/

theorem classNames_of_isClassName (named : IsClassName name) :
    classNames ('L' :: (name ++ [';'])) = [name] := by
  have read := objectType?_append (.plain named) []
  rw [List.append_nil] at read
  rw [classNames_of_some read, classNames]

/-- What is found in place of a class name stands behind an `L` in it. -/
theorem of_mem_classNames {part : List Char} (closed : ∀ c ∈ name, c ≠ ';' ∧ c ≠ '<')
    (mem : part ∈ classNames ('L' :: (name ++ [';']))) :
    IsClassName part ∧ (name = part ∨ ∃ front, name = front ++ 'L' :: part) := by
  obtain ⟨before, written, after, type, split⟩ := exists_of_mem_classNames mem
  have read := objectType?_append type after
  rw [← List.cons_append] at split
  rcases List.append_eq_append_iff.mp split with ⟨between, atStart, behind⟩ |
    ⟨between, atName, behind⟩
  · have starts : 'L' ∈ written := by cases type <;> exact List.mem_cons_self
    have : 'L' ∈ [';'] := by
      rw [behind]
      exact List.mem_append_right _ (List.mem_append_left _ starts)
    exact absurd this (by decide)
  · rw [behind] at read
    have inside : ∀ c ∈ between, c ≠ ';' ∧ c ≠ '<' := by
      intro c mem
      have : c ∈ 'L' :: name := by rw [atName]; exact List.mem_append_right _ mem
      rcases List.mem_cons.mp this with rfl | mem
      · decide
      · exact closed c mem
    obtain ⟨rfl, named, -⟩ := (objectType?_semicolon inside).mp read
    refine ⟨named, ?_⟩
    cases before with
    | nil => exact .inl (List.cons.inj atName).2
    | cons d front => exact .inr ⟨front, (List.cons.inj atName).2⟩

end Descriptor

/-! ## Whole descriptors -/

/-- What is found of one class. -/
def ClassName.found (name : ClassName) : List (List Char) :=
  Descriptor.classNames ('L' :: (name.text ++ [';']))

theorem ClassName.closed (name : ClassName) : ∀ c ∈ name.text, c ≠ ';' ∧ c ≠ '<' :=
  fun _ mem => ⟨(ne_of_nameChar (mem_text mem)).1, (ne_of_nameChar (mem_text mem)).2.1⟩

theorem FieldType.classNames_text_append (type : FieldType) (rest : List Char) :
    Descriptor.classNames (type.text ++ rest) =
      type.classNames.flatMap ClassName.found ++ Descriptor.classNames rest := by
  induction type with
  | basic type => cases type <;> exact classNames_cons (by decide)
  | object name =>
    have closed : ∀ c ∈ 'L' :: name.text, c ≠ ';' ∧ c ≠ '<' :=
      List.forall_mem_cons.mpr ⟨by decide, name.closed⟩
    simpa [text, classNames, ClassName.found] using classNames_semicolon closed rest
  | array element ih => exact (classNames_cons (by decide)).trans ih

theorem FieldType.classNames_flatMap_append (types : List FieldType) (rest : List Char) :
    Descriptor.classNames (types.flatMap text ++ rest) =
      (types.flatMap classNames).flatMap ClassName.found ++ Descriptor.classNames rest := by
  induction types with
  | nil => rfl
  | cons type types ih =>
    simp only [List.flatMap_cons, List.append_assoc, classNames_text_append, ih,
      List.flatMap_append]

/-- Every class of a descriptor is looked for on its own. -/
theorem TypeDescriptor.classNames_text (descriptor : TypeDescriptor) :
    Descriptor.classNames descriptor.text = descriptor.classNames.flatMap ClassName.found := by
  have nothing : Descriptor.classNames [] = [] := by rw [Descriptor.classNames]
  cases descriptor with
  | field type => simpa [text, classNames, nothing] using type.classNames_text_append []
  | method parameters result =>
    have returned : Descriptor.classNames ((result.map FieldType.text).getD ['V']) =
        (result.toList.flatMap FieldType.classNames).flatMap ClassName.found := by
      cases result with
      | none => exact (classNames_cons (by decide)).trans nothing
      | some type => simpa [nothing] using type.classNames_text_append []
    simp only [text, classNames, List.flatMap_append]
    rw [classNames_cons (by decide), FieldType.classNames_flatMap_append,
      classNames_cons (by decide), returned]

section Found

variable {descriptor : TypeDescriptor} {n : ClassName} {name : String}

theorem mem_namesIn_text : name ∈ namesIn (String.ofList descriptor.text) ↔
    ∃ n ∈ descriptor.classNames, ∃ part ∈ n.found, dotted (String.ofList part) = name := by
  simp only [namesIn, String.toList_ofList, descriptor.classNames_text, List.mem_map,
    List.mem_flatMap]
  constructor
  · rintro ⟨part, ⟨n, listed, mem⟩, same⟩
    exact ⟨n, listed, part, mem, same⟩
  · rintro ⟨n, listed, part, mem, same⟩
    exact ⟨part, ⟨n, listed, mem⟩, same⟩

/-- A class of a descriptor is found exactly if its name can be read. -/
theorem dotted_mem_namesIn_iff (listed : n ∈ descriptor.classNames) :
    n.dotted ∈ namesIn (String.ofList descriptor.text) ↔ IsClassName n.text := by
  rw [mem_namesIn_text]
  constructor
  · rintro ⟨m, -, part, mem, same⟩
    have named := (of_mem_classNames m.closed mem).1
    have noDot : '.' ∉ part := fun mem => (ne_of_nameChar (named.mem mem)).2.2 rfl
    have noDot' : '.' ∉ n.text := fun mem => (ne_of_nameChar (n.mem_text mem)).2.2 rfl
    exact dotted_injective noDot noDot' same ▸ named
  · intro named
    refine ⟨n, listed, n.text, ?_, rfl⟩
    rw [ClassName.found, classNames_of_isClassName named]
    exact List.mem_singleton_self _

/-- What is found but no class of the descriptor is part of a name that cannot be read. -/
theorem exists_part_of_mem_namesIn (mem : name ∈ namesIn (String.ofList descriptor.text))
    (other : name ∉ descriptor.classNames.map ClassName.dotted) :
    ∃ n ∈ descriptor.classNames, ¬ IsClassName n.text ∧
      ∃ front part, n.text = front ++ 'L' :: part ∧ IsClassName part ∧
        dotted (String.ofList part) = name := by
  obtain ⟨n, listed, part, found, rfl⟩ := mem_namesIn_text.mp mem
  obtain ⟨named, same | ⟨front, behind⟩⟩ := of_mem_classNames n.closed found
  · exact absurd (List.mem_map.mpr ⟨n, listed, by rw [ClassName.dotted, same]⟩) other
  · refine ⟨n, listed, fun whole => ?_, front, part, behind, named, rfl⟩
    rw [ClassName.found, classNames_of_isClassName whole, List.mem_singleton] at found
    exact absurd (List.mem_map.mpr ⟨n, listed, by rw [ClassName.dotted, found]⟩) other

end Found

/-- The search finds the classes of a descriptor exactly if it can read all of their names. It never
misses one that it can read, and what else it finds is part of a name that it cannot read. -/
theorem namesIn_descriptor (descriptor : TypeDescriptor) :
    ((∀ name, name ∈ namesIn (String.ofList descriptor.text) ↔
        name ∈ descriptor.classNames.map ClassName.dotted) ↔
      ∀ n ∈ descriptor.classNames, IsClassName n.text) ∧
    (∀ n ∈ descriptor.classNames,
      n.dotted ∈ namesIn (String.ofList descriptor.text) ↔ IsClassName n.text) ∧
    ∀ name ∈ namesIn (String.ofList descriptor.text),
      name ∉ descriptor.classNames.map ClassName.dotted →
      ∃ n ∈ descriptor.classNames, ¬ IsClassName n.text ∧
        ∃ front part, n.text = front ++ 'L' :: part ∧ IsClassName part ∧
          dotted (String.ofList part) = name := by
  refine ⟨⟨?_, ?_⟩, fun n => dotted_mem_namesIn_iff, fun name => exists_part_of_mem_namesIn⟩
  · intro agree n listed
    exact (dotted_mem_namesIn_iff listed).mp ((agree n.dotted).mpr (List.mem_map_of_mem listed))
  · intro readable name
    constructor
    · intro mem
      by_contra other
      obtain ⟨n, listed, unreadable, -⟩ := exists_part_of_mem_namesIn mem other
      exact unreadable (readable n listed)
    · intro mem
      obtain ⟨n, listed, rfl⟩ := List.mem_map.mp mem
      exact (dotted_mem_namesIn_iff listed).mpr (readable n listed)

/-- An inner class. -/
def mapEntry : ClassName where
  segments := ["java".toList, "util".toList, "Map$Entry".toList]
  nonempty := by decide
  each := by simp [isWordChar]

/-- A class inside an inner class. -/
def localInMid : ClassName where
  segments := ["x".toList, "Outer$Mid$Local".toList]
  nonempty := by decide
  each := by simp [isWordChar]

def entriesAndLocal : TypeDescriptor :=
  .method [.basic .int, .array (.array (.object mapEntry)), .object localInMid] none

theorem namesIn_descriptor_nested :
    String.ofList entriesAndLocal.text = "(I[[Ljava/util/Map$Entry;Lx/Outer$Mid$Local;)V" ∧
    mapEntry.dotted ∈ namesIn (String.ofList entriesAndLocal.text) ∧
    localInMid.dotted ∉ namesIn (String.ofList entriesAndLocal.text) ∧
    (∃ n ∈ entriesAndLocal.classNames, ¬ IsClassName n.text ∧
      ∃ front part, n.text = front ++ 'L' :: part ∧ IsClassName part ∧
        dotted (String.ofList part) = "ocal") ∧
    ∀ name, name ∈ namesIn (String.ofList (TypeDescriptor.field (.object mapEntry)).text) ↔
      name ∈ [mapEntry].map ClassName.dotted := by
  have readable : IsClassName mapEntry.text := by decide +kernel
  have unreadable : ¬ IsClassName localInMid.text := by decide +kernel
  have misread : "ocal" ∈ namesIn (String.ofList entriesAndLocal.text) := by decide +kernel
  have listed : entriesAndLocal.classNames = [mapEntry, localInMid] := rfl
  obtain ⟨-, found, parts⟩ := namesIn_descriptor entriesAndLocal
  refine ⟨by decide +kernel, ?_, ?_, ?_, ?_⟩
  · exact (found mapEntry (by simp [listed])).mpr readable
  · exact mt (found localInMid (by simp [listed])).mp unreadable
  · exact parts "ocal" misread (by decide +kernel)
  · apply (namesIn_descriptor (.field (.object mapEntry))).1.mpr
    exact List.forall_mem_singleton.mpr readable

/-- A unit whose only field is of a class inside an inner class. -/
def localFieldBytes : List UInt8 :=
  [0xca, 0xfe, 0xba, 0xbe, 0, 0, 0, 52, 0, 4, 7, 0, 2, 1, 0, 3, 120, 47, 65, 1, 0, 19] ++
    "Lx/Outer$Mid$Local;".toList.map (·.toUInt8) ++ [0, 33, 0, 1]

/-- The class of the field is missed, and a class that does not exist is found. -/
theorem local_class_is_misread :
    String.ofList (TypeDescriptor.field (.object localInMid)).text = "Lx/Outer$Mid$Local;" ∧
    localInMid.dotted = "x.Outer$Mid$Local" ∧ namesIn "Lx/Outer$Mid$Local;" = ["ocal"] ∧
    parse 57 "x.A" ⟨localFieldBytes, none⟩ = .ok ⟨"x.A", ["ocal"]⟩ := by
  refine ⟨?_, ?_, ?_, ?_⟩ <;> decide +kernel

end ClassCoupling.ClassFile
