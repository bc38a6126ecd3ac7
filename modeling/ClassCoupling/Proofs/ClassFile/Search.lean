import ClassCoupling.ClassFile.Unit
import ClassCoupling.Proofs.ClassFile.ObjectType
import Mathlib.Data.List.Pairwise
import Mathlib.Data.List.Perm.Basic

/-!
# The search for object types

A text is searched for object types from left to right. What is found is determined by the text
alone: object types that do not overlap, such that every other one starts inside an earlier one of
them.
-/

namespace ClassCoupling.ClassFile

namespace Descriptor

/-- An object type at a place of a text. -/
structure Occurrence where
  start : Nat
  written : List Char
  name : List Char

/-- The place behind an object type. -/
def Occurrence.stop (o : Occurrence) : Nat := o.start + o.written.length

/-- The text has the object type at its place. -/
def Occurrence.In (o : Occurrence) (text : List Char) : Prop :=
  ObjectType o.name o.written ∧
    ∃ before after, text = before ++ (o.written ++ after) ∧ before.length = o.start

/-- Object types of a text, from a place on, that do not overlap; every other one there starts
inside an earlier one of them. -/
structure Leftmost (text : List Char) (place : Nat) (found : List Occurrence) : Prop where
  inText : ∀ o ∈ found, o.In text ∧ place ≤ o.start
  apart : found.Pairwise fun o later => o.stop ≤ later.start
  covers : ∀ o : Occurrence, o.In text → place ≤ o.start →
    o ∈ found ∨ ∃ earlier ∈ found, earlier.start < o.start ∧ o.start < earlier.stop

variable {text before cs : List Char} {place : Nat} {o p : Occurrence}
  {found other : List Occurrence}

/-! ## Occurrences -/

theorem ObjectType.ne_nil {name written : List Char} (type : ObjectType name written) :
    written ≠ [] := by
  cases type <;> exact List.cons_ne_nil _ _

theorem Occurrence.In.start_lt_stop (here : o.In text) : o.start < o.stop :=
  Nat.lt_add_of_pos_right (List.length_pos_iff.mpr here.1.ne_nil)

theorem Occurrence.In.stop_le (here : o.In text) : o.stop ≤ text.length := by
  obtain ⟨-, before, after, rfl, start⟩ := here
  simp only [Occurrence.stop, List.length_append]
  omega

/-- What stands at a place of a text is read there. -/
theorem Occurrence.In.read (here : o.In text) (whole : text = before ++ cs)
    (start : before.length = o.start) :
    ∃ after, objectType? cs = some (o.name, after) ∧ cs = o.written ++ after := by
  obtain ⟨type, before', after, split, start'⟩ := here
  have parts := List.append_inj (split.symm.trans whole) (start'.trans start.symm)
  exact ⟨after, parts.2 ▸ objectType?_append type after, parts.2.symm⟩

/-- At most one object type starts at a place. -/
theorem Occurrence.In.eq_of_start_eq (here : o.In text) (there : p.In text)
    (same : o.start = p.start) : o = p := by
  obtain ⟨-, before, after, whole, start⟩ := id here
  obtain ⟨after, read, split⟩ := here.read whole start
  obtain ⟨after', read', split'⟩ := there.read whole (start.trans same)
  rw [read, Option.some.injEq, Prod.mk.injEq] at read'
  obtain ⟨name, rfl⟩ := read'
  have written : o.written = p.written := List.append_cancel_right (split.symm.trans split')
  cases o
  cases p
  simp_all

/-! ## The search -/

theorem leftmost_nil (text : List Char) : Leftmost text text.length [] := by
  refine ⟨by simp, .nil, fun o here later => ?_⟩
  have := here.start_lt_stop
  have := here.stop_le
  omega

/-- The search goes on behind an object type that it finds. -/
theorem Leftmost.cons (leftmost : Leftmost text o.stop found) (here : o.In text) :
    Leftmost text o.start (o :: found) := by
  have nonempty := here.start_lt_stop
  refine ⟨?_, ?_, ?_⟩
  · intro p mem
    rcases List.mem_cons.mp mem with rfl | mem
    · exact ⟨here, Nat.le_refl _⟩
    · have := leftmost.inText p mem
      exact ⟨this.1, by omega⟩
  · exact List.pairwise_cons.mpr ⟨fun p mem => (leftmost.inText p mem).2, leftmost.apart⟩
  · intro p there later
    -- at the start of the one found, inside it, or behind it
    rcases Nat.eq_or_lt_of_le later with same | behind
    · rw [here.eq_of_start_eq there same]
      exact .inl List.mem_cons_self
    · by_cases inside : p.start < o.stop
      · exact .inr ⟨o, List.mem_cons_self, behind, inside⟩
      · rcases leftmost.covers p there (Nat.le_of_not_lt inside) with mem | ⟨earlier, mem, inner⟩
        · exact .inl (List.mem_cons_of_mem _ mem)
        · exact .inr ⟨earlier, List.mem_cons_of_mem _ mem, inner⟩

/-- The search passes over a place where no object type starts. -/
theorem Leftmost.pass (leftmost : Leftmost text (place + 1) found)
    (nothing : ∀ o : Occurrence, o.In text → o.start ≠ place) : Leftmost text place found := by
  refine ⟨?_, leftmost.apart, ?_⟩
  · intro o mem
    have := leftmost.inText o mem
    exact ⟨this.1, Nat.le_of_succ_le this.2⟩
  · intro o here later
    exact leftmost.covers o here (Nat.lt_of_le_of_ne later (nothing o here).symm)

theorem exists_leftmost (before cs : List Char) : ∃ found,
    Leftmost (before ++ cs) before.length found ∧ found.map (·.name) = classNames cs := by
  -- what stands before the place of the search is passed along
  fun_induction classNames cs generalizing before with
  | case1 => exact ⟨[], by simpa using leftmost_nil before, rfl⟩
  | case2 c tail name rest read ih =>
    obtain ⟨written, type, split⟩ := objectType?_eq_some_iff.mp read
    obtain ⟨found, leftmost, names⟩ := ih (before ++ written)
    rw [List.append_assoc, ← split, List.length_append] at leftmost
    let first : Occurrence := ⟨before.length, written, name⟩
    have here : first.In (before ++ c :: tail) := ⟨type, before, rest, by rw [split], rfl⟩
    exact ⟨first :: found, Leftmost.cons leftmost here, by simp [first, names]⟩
  | case3 c tail read ih =>
    obtain ⟨found, leftmost, names⟩ := ih (before ++ [c])
    rw [List.append_assoc, List.length_append] at leftmost
    refine ⟨found, leftmost.pass fun o here start => ?_, names⟩
    obtain ⟨after, found, -⟩ := here.read rfl start.symm
    rw [List.singleton_append, read] at found
    cases found

/-- The search finds the object types as written. -/
theorem exists_of_mem_classNames {name : List Char} (mem : name ∈ classNames cs) :
    ∃ before written after, ObjectType name written ∧ cs = before ++ (written ++ after) := by
  obtain ⟨found, leftmost, names⟩ := exists_leftmost [] cs
  rw [← names] at mem
  obtain ⟨o, listed, rfl⟩ := List.mem_map.mp mem
  obtain ⟨type, before, after, split, -⟩ := (leftmost.inText o listed).1
  exact ⟨before, o.written, after, type, split⟩

/-! ## Uniqueness -/

theorem Leftmost.increasing (leftmost : Leftmost text place found) :
    found.Pairwise fun o later => o.start < later.start := by
  refine leftmost.apart.imp_of_mem fun {o later} mem _ apart => ?_
  exact Nat.lt_of_lt_of_le (leftmost.inText o mem).1.start_lt_stop apart

/-- None of the object types found starts inside another. -/
theorem Leftmost.stop_le_start (leftmost : Leftmost text place found) (ho : o ∈ found)
    (hp : p ∈ found) (earlier : o.start < p.start) : o.stop ≤ p.start := by
  have : Std.Symm fun x y : Occurrence => x.stop ≤ y.start ∨ y.stop ≤ x.start := ⟨fun _ _ => .symm⟩
  have apart : found.Pairwise fun x y => x.stop ≤ y.start ∨ y.stop ≤ x.start :=
    leftmost.apart.imp .inl
  have different : o ≠ p := fun same => Nat.ne_of_lt earlier (congrArg Occurrence.start same)
  have nonempty := (leftmost.inText p hp).1.start_lt_stop
  rcases apart.forall ho hp different with before | behind
  · exact before
  · omega

theorem Leftmost.subset (leftmost : Leftmost text place found)
    (another : Leftmost text place other) (mem : o ∈ found) : o ∈ other := by
  -- on the start: an earlier object type of either list is one of the other list as well
  induction start : o.start using Nat.strongRecOn generalizing o found other with
  | ind _ ih =>
    obtain ⟨here, later⟩ := leftmost.inText o mem
    rcases another.covers o here later with listed | ⟨earlier, listed, before, inside⟩
    · exact listed
    · have shared : earlier ∈ found := ih _ (start ▸ before) another leftmost listed rfl
      have := leftmost.stop_le_start shared mem before
      omega

theorem Leftmost.unique (leftmost : Leftmost text place found)
    (another : Leftmost text place other) : other = found := by
  have nodup {found : List Occurrence} (leftmost : Leftmost text place found) : found.Nodup :=
    leftmost.increasing.imp fun before same => Nat.ne_of_lt before (congrArg Occurrence.start same)
  have perm : other.Perm found :=
    (List.perm_ext_iff_of_nodup (nodup another) (nodup leftmost)).mpr fun _ =>
      ⟨another.subset leftmost, leftmost.subset another⟩
  refine perm.eq_of_pairwise ?_ another.increasing leftmost.increasing
  intro _ _ _ _ before after
  exact absurd before (Nat.lt_asymm after)

end Descriptor

open Descriptor

/-- The names found in a text are those of its leftmost object types. -/
theorem namesIn_are_leftmost (text : String) :
    (∀ o p : Occurrence, o.In text.toList → p.In text.toList → o.start = p.start → o = p) ∧
    ∃ found, Leftmost text.toList 0 found ∧
      (∀ other, Leftmost text.toList 0 other → other = found) ∧
      namesIn text = found.map fun o => dotted (String.ofList o.name) := by
  obtain ⟨found, leftmost, names⟩ := exists_leftmost [] text.toList
  refine ⟨fun o p => Occurrence.In.eq_of_start_eq, found, leftmost, fun _ => leftmost.unique, ?_⟩
  rw [namesIn, ← names, List.map_map]
  rfl

/-- A class name with an object type inside it, and type arguments with another. -/
theorem namesIn_are_leftmost_overlapping :
    namesIn "LaLb;Lc<Lx;>;" = ["aLb", "c"] ∧
    Occurrence.In ⟨2, ['L', 'b', ';'], ['b']⟩ "LaLb;Lc<Lx;>;".toList ∧
    ∃ earlier : Occurrence, earlier.In "LaLb;Lc<Lx;>;".toList ∧ earlier.start < 2 ∧
      2 < earlier.stop ∧ dotted (String.ofList earlier.name) ∈ namesIn "LaLb;Lc<Lx;>;" := by
  have names : namesIn "LaLb;Lc<Lx;>;" = ["aLb", "c"] := by decide +kernel
  have nested : Occurrence.In ⟨2, ['L', 'b', ';'], ['b']⟩ "LaLb;Lc<Lx;>;".toList :=
    ⟨.plain (by decide +kernel), ['L', 'a'], "Lc<Lx;>;".toList, by decide, rfl⟩
  refine ⟨names, nested, ?_⟩
  obtain ⟨-, found, leftmost, -, collected⟩ := namesIn_are_leftmost "LaLb;Lc<Lx;>;"
  rcases leftmost.covers _ nested (Nat.zero_le _) with listed | ⟨earlier, listed, before, inside⟩
  · have := List.mem_map_of_mem (f := fun o => dotted (String.ofList o.name)) listed
    rw [← collected, names] at this
    exact absurd this (by decide +kernel)
  · refine ⟨earlier, (leftmost.inText _ listed).1, before, inside, ?_⟩
    rw [collected]
    exact List.mem_map_of_mem listed

end ClassCoupling.ClassFile
