import ClassCoupling.FileTree.ClassDirectory
import ClassCoupling.Proofs.FileTree.Path
import ClassCoupling.Proofs.FileTree.Walk

/-!
# Units of a class directory

A walk through the directory meets the class files, and each of them is read by a path of its own.
The path leads back to the file without passing a link below the directory, unless it is too long for
the system. So what lies outside of the directory has no part in what is loaded.
-/

namespace ClassCoupling.FileTree

/-! ## Names of class files -/

section Names

variable {name stem : String}

theorem dotClass : ".class" = String.singleton '.' ++ "class" := rfl

theorem splitExtension_class (some_stem : stem ≠ "") :
    Path.splitExtension (stem ++ ".class") = (stem, some "class") := by
  have no_dot : '.' ∉ "class".toList := by decide
  rw [Path.splitExtension, dotClass, ← String.append_assoc, Text.atLast?_append stem no_dot]
  exact if_neg some_stem

theorem isUnitFile_iff :
    isUnitFile name = true ↔
      ∃ stem, name = stem ++ ".class" ∧ stem ≠ "" ∧ stem ≠ "module-info" := by
  constructor
  · intro accepted
    unfold isUnitFile Path.splitExtension at accepted
    cases cut : Text.atLast? '.' name with
    | none => simp [cut] at accepted
    | some parts =>
      obtain ⟨stem, extension⟩ := parts
      by_cases none : stem = ""
      · simp [cut, none] at accepted
      · simp only [cut, none, if_false, Option.some.injEq, Bool.and_eq_true, decide_eq_true_eq]
          at accepted
        have whole := Text.eq_append_of_atLast? cut
        rw [accepted.1, String.append_assoc] at whole
        exact ⟨stem, whole, none, accepted.2⟩
  · rintro ⟨stem, rfl, some_stem, unit⟩
    simp [isUnitFile, splitExtension_class some_stem, unit]

theorem bareName_class (some_stem : stem ≠ "") :
    bareName (stem ++ ".class") = if stem = "." then ".." else stem := by
  rw [bareName, splitExtension_class some_stem]
  by_cases dot : stem = "."
  · simp [dot]
  · simp [dot]

theorem unitName_class (folders : Location) (some_stem : stem ≠ "") :
    unitName (folders ++ [stem ++ ".class"]) =
      Text.join "." ((folders ++ [if stem = "." then ".." else stem]).map Path.shown) := by
  simp [unitName, bareName_class some_stem]

end Names

/-! ## Rights -/

/-- A name can be looked up in every directory from a place on. -/
def Searchable (t : FileTree) (place : Location) : Location → Prop
  | [] => True
  | name :: rest => t.permits .search place = true ∧ t.Searchable (place ++ [name]) rest

/-- Every directory from a place on can be listed and a name looked up in it, and what is at the end
can be read. -/
def Accessible (t : FileTree) (place : Location) : Location → Prop
  | [] => t.permits .read place = true
  | name :: rest => t.permits .read place = true ∧ t.permits .search place = true ∧
      t.Accessible (place ++ [name]) rest

/-- A walk meets what it can list, and what it meets is read by a path of its own. -/
theorem accessible_iff {t : FileTree} {place names : Location} (some_name : names ≠ []) :
    t.Accessible place names ↔ t.isMet place names = true ∧ t.Searchable place names ∧
      t.permits .read (place ++ names) = true := by
  induction names generalizing place with
  | nil => exact absurd rfl some_name
  | cons name rest ih =>
    cases rest with
    | nil => simp [Accessible, isMet, Searchable]
    | cons next rest =>
      have onward := @ih (place ++ [name]) (List.cons_ne_nil _ _)
      rw [List.append_assoc, List.singleton_append] at onward
      have here : t.Searchable place (name :: next :: rest) ↔
          t.permits .search place = true ∧ t.Searchable (place ++ [name]) (next :: rest) := Iff.rfl
      rw [Accessible, onward, isMet, here, Bool.and_eq_true, Bool.and_eq_true]
      tauto

/-! ## Files and their units -/

/-- A file that is met on a walk through the directory `path`, and the unit in it. Its name follows
from the names on the way; a stem that is a dot counts as two. -/
inductive HoldsUnit (t : FileTree) (place : Location) (path : String) :
    Location × Item → Scan.RawUnit → Prop
  | unit (folders : Location) (stem : String) {file : String} {content : ByteArray} :
      stem ≠ "" → stem ≠ "module-info" → content.size ≤ 16 * 1024 * 1024 →
      t.Accessible place (folders ++ [stem ++ ".class"]) →
      file = Path.join path (Text.join "/" (folders ++ [stem ++ ".class"])) → file.length ≤ 4095 →
      HoldsUnit t place path (folders ++ [stem ++ ".class"], .file content)
        ⟨Path.shown file,
          Text.join "." ((folders ++ [if stem = "." then ".." else stem]).map Path.shown),
          content.toList⟩

/-- The units in the files that a walk meets, in the order in which it meets them. -/
inductive Loads (t : FileTree) (place : Location) (path : String) :
    List (Location × Item) → List Scan.RawUnit → Prop
  | done : Loads t place path [] []
  | unit {visit : Location × Item} {unit : Scan.RawUnit} {visits : List (Location × Item)}
      {units : List Scan.RawUnit} :
      HoldsUnit t place path visit unit → Loads t place path visits units →
      Loads t place path (visit :: visits) (unit :: units)
  | pass {visit : Location × Item} {visits : List (Location × Item)} {units : List Scan.RawUnit} :
      (∀ unit, ¬HoldsUnit t place path visit unit) → Loads t place path visits units →
      Loads t place path (visit :: visits) units

section Units

variable {t : FileTree} {path file : String} {place names : Location} {item : Item}
  {content : ByteArray}

theorem requireFile_eq_ok_iff {description : String} {done : Unit} :
    t.requireFile description file = .ok done ↔
      ∃ content, t.find false file = .ok (.file content) := by
  unfold requireFile
  split <;> simp_all

theorem requireSize_eq_ok_iff {size limit : Nat} {done : Unit} :
    requireSize file size limit = .ok done ↔ size ≤ limit := by
  unfold requireSize
  split <;> simp_all

theorem readUnit_eq_ok_iff {bytes : ByteArray} :
    t.readUnit file = .ok bytes ↔ (∃ content, t.find false file = .ok (.file content)) ∧
      (∃ item, t.find true file = .ok item ∧ item.size ≤ maxUnitSize) ∧ t.read file = .ok bytes := by
  simp only [readUnit, bind_eq_ok_iff, mapError_eq_ok_iff, requireFile_eq_ok_iff,
    requireSize_eq_ok_iff]
  tauto

theorem WellFormed.isFileName (wf : t.WellFormed) {name : String}
    (found : t.at? (place ++ [name]) = some item) : IsFileName name := by
  obtain ⟨-, -, named⟩ := wf.entered _ (mem_items_of_at? (by simp) found)
  rwa [List.getLastD_concat] at named

theorem WellFormed.isFileName_of_mem (wf : t.WellFormed) (below : t.LiesBelow place names item) :
    ∀ name ∈ names, IsFileName name := by
  induction below with
  | entry found => simpa using wf.isFileName found
  | inside found _ ih => exact List.forall_mem_cons.mpr ⟨wf.isFileName found, ih⟩

theorem looksUp_name_iff {name : String} (inside : t.isDirectoryAt place = true)
    (named : IsName name) : t.LooksUp place name ↔ t.permits .search place = true :=
  ⟨fun looked => looked.allowed named.ne_empty, fun allowed => ⟨inside, fun _ => allowed⟩⟩

/-- The names below a directory lead to where they are, and to nowhere if they may not be looked
up. -/
theorem LiesBelow.leads_iff (below : t.LiesBelow place names item)
    (inside : t.isDirectoryAt place = true) (named : ∀ name ∈ names, IsName name)
    (solid : ∀ target, item ≠ .link target) {followLast : Bool} {links : Nat} {goal : Location} :
    t.Leads followLast links place names goal ↔
      t.Searchable place names ∧ goal = place ++ names := by
  induction below with
  | @entry place name item found =>
    have named := named name List.mem_cons_self
    rw [leads_name_iff named found solid, looksUp_name_iff inside named, Searchable, Searchable,
      and_true]
    refine and_congr_right fun _ => ⟨fun leads => ?_, fun same => same ▸ .here⟩
    cases leads
    rfl
  | @inside place names name item found _ ih =>
    rw [List.forall_mem_cons] at named
    rw [leads_name_iff named.1 found nofun, looksUp_name_iff inside named.1,
      ih (isDirectoryAt_iff.mpr found) named.2 solid, Searchable, and_assoc, List.append_assoc,
      List.singleton_append]

/-- The system takes the path of a file below a directory, if it is not too long. -/
theorem exists_partsOf_join {parts : List String} (taken : partsOf path = .ok parts)
    (named : ∀ name ∈ names, IsFileName name) (some_name : names ≠ []) :
    (∃ more, Path.join path (Text.join "/" names) = path ++ more) ∧
      ∃ core idle, parts = core ++ idle ∧ (∀ part ∈ idle, Path.isTrivial part = true) ∧
        ∀ others, partsOf (Path.join path (Text.join "/" names)) = .ok others ↔
          (Path.join path (Text.join "/" names)).length ≤ maxPathLength ∧ others = core ++ names := by
  obtain ⟨some_text, no_nul, -, rfl⟩ := partsOf_eq_ok_iff.mp taken
  have bare : ∀ name ∈ names, '/' ∉ name.toList := fun name listed => (named name listed).no_slash
  have full : "" ∉ names := fun listed => (named "" listed).ne_empty rfl
  obtain ⟨⟨slash, kind, whole⟩, core, idle, cut, nothing, split⟩ :=
    Path.exists_split_join some_text bare full some_name
  refine ⟨⟨_, whole⟩, core, idle, cut, nothing, fun others => ?_⟩
  rw [whole] at split ⊢
  have no_nul_inside : '\x00' ∉ (path ++ (slash ++ Text.join "/" names)).toList := by
    rw [String.toList_append, String.toList_append, List.mem_append, List.mem_append, not_or, not_or]
    refine ⟨no_nul, by rcases kind with rfl | rfl <;> decide, fun inside => ?_⟩
    rcases Text.mem_join inside with between | ⟨name, listed, inside⟩
    · exact absurd between (by decide)
    · exact (named name listed).no_nul inside
  rw [partsOf_eq_ok_iff, split]
  exact ⟨fun ⟨_, _, short, same⟩ => ⟨short, same⟩,
    fun ⟨short, same⟩ => ⟨by simp [some_text], no_nul_inside, short, same⟩⟩

/-- The path of a file below a directory leads back to the file, if it is not too long and the
directories on the way can be searched. Otherwise it leads nowhere. -/
theorem WellFormed.resolve_join_iff (wf : t.WellFormed) (resolved : t.resolve false path = .ok place)
    (inside : t.isDirectoryAt place = true) (below : t.LiesBelow place names item)
    (solid : ∀ target, item ≠ .link target) {followLast : Bool} {goal : Location} :
    t.resolve followLast (Path.join path (Text.join "/" names)) = .ok goal ↔
      (Path.join path (Text.join "/" names)).length ≤ maxPathLength ∧ t.Searchable place names ∧
        goal = place ++ names := by
  obtain ⟨some_name, -⟩ := wf.liesBelow_iff.mp below
  have named := wf.isFileName_of_mem below
  obtain ⟨parts, taken, leads⟩ := resolve_eq_ok_iff.mp (resolve_following resolved inside)
  obtain ⟨⟨more, whole⟩, core, idle, rfl, nothing, parts⟩ :=
    exists_partsOf_join taken named some_name
  -- A slash at the end of the directory's path is a last part of that path only.
  have arrives := leads.exchange_trivial inside nothing (List.forall_mem_nil _)
  rw [List.append_nil] at arrives
  have start : startOf t.workingDirectory (Path.join path (Text.join "/" names)) =
      startOf t.workingDirectory path := by
    rw [startOf, whole, Path.isAbsolute_append (partsOf_eq_ok_iff.mp taken).1]
    rfl
  have onward {left : Nat} {goal : Location} : t.Leads followLast left place names goal ↔
      t.Searchable place names ∧ goal = place ++ names :=
    below.leads_iff inside (fun name listed => (named name listed).toIsName) solid
  simp only [resolve_eq_ok_iff, parts, start]
  constructor
  · rintro ⟨_, ⟨short, rfl⟩, leads⟩
    obtain ⟨middle, left, first, second⟩ := leads.split (.inl some_name)
    obtain rfl := arrives.unique first
    exact ⟨short, onward.mp second⟩
  · rintro ⟨short, reached⟩
    exact ⟨_, ⟨short, rfl⟩, arrives.append (fun left => onward.mpr reached) some_name⟩

theorem WellFormed.readUnit_join_iff (wf : t.WellFormed)
    (resolved : t.resolve false path = .ok place) (inside : t.isDirectoryAt place = true)
    (below : t.LiesBelow place names (.file content)) {bytes : ByteArray} :
    t.readUnit (Path.join path (Text.join "/" names)) = .ok bytes ↔
      bytes = content ∧ content.size ≤ maxUnitSize ∧
        (Path.join path (Text.join "/" names)).length ≤ maxPathLength ∧
        t.Searchable place names ∧ t.permits .read (place ++ names) = true := by
  obtain ⟨-, found⟩ := wf.liesBelow_iff.mp below
  have leads {followLast : Bool} {goal : Location} :
      t.resolve followLast (Path.join path (Text.join "/" names)) = .ok goal ↔
        (Path.join path (Text.join "/" names)).length ≤ maxPathLength ∧ t.Searchable place names ∧
          goal = place ++ names :=
    wf.resolve_join_iff resolved inside below nofun
  simp only [readUnit_eq_ok_iff, find_eq_ok_iff, read_eq_ok_iff, leads]
  constructor
  · rintro ⟨-, ⟨item, ⟨_, ⟨-, -, rfl⟩, met⟩, small⟩, _, ⟨short, searched, rfl⟩, again, allowed⟩
    obtain rfl : Item.file content = item := Option.some.inj (found.symm.trans met)
    obtain rfl : content = bytes := Item.file.inj (Option.some.inj (found.symm.trans again))
    exact ⟨rfl, small, short, searched, allowed⟩
  · rintro ⟨rfl, small, short, searched, allowed⟩
    exact ⟨⟨bytes, _, ⟨short, searched, rfl⟩, found⟩,
      ⟨_, ⟨_, ⟨short, searched, rfl⟩, found⟩, small⟩, _, ⟨short, searched, rfl⟩, found, allowed⟩

/-- What is loaded of a visit on the way through a directory. -/
def loaded? (t : FileTree) (place : Location) (path : String) (visit : Location × Item) :
    Option Scan.RawUnit :=
  if t.isMet place visit.1 then t.rawUnit? path visit else none

theorem WellFormed.loaded?_eq_some_iff (wf : t.WellFormed)
    (resolved : t.resolve false path = .ok place) (inside : t.isDirectoryAt place = true)
    (below : t.LiesBelow place names item) (unit : Scan.RawUnit) :
    t.loaded? place path (names, item) = some unit ↔ HoldsUnit t place path (names, item) unit := by
  obtain ⟨some_name, -⟩ := wf.liesBelow_iff.mp below
  unfold loaded?
  rw [Option.ite_none_right_eq_some]
  cases item with
  | directory => exact ⟨fun loads => (nomatch loads.2), nofun⟩
  | link target => exact ⟨fun loads => (nomatch loads.2), nofun⟩
  | file content =>
    constructor
    · rintro ⟨met, loaded⟩
      obtain ⟨folders, name, rfl⟩ : ∃ folders name, names = folders ++ [name] :=
        ⟨_, _, (List.dropLast_concat_getLast some_name).symm⟩
      simp only [rawUnit?, List.getLastD_concat] at loaded
      split at loaded
      next accepted =>
        obtain ⟨stem, rfl, some_stem, descriptor⟩ := isUnitFile_iff.mp accepted
        obtain ⟨bytes, read, rfl⟩ := Option.map_eq_some_iff.mp loaded
        obtain ⟨rfl, small, short, searched, allowed⟩ :=
          (wf.readUnit_join_iff resolved inside below).mp (toOption_eq_some_iff.mp read)
        have accessible := (accessible_iff some_name).mpr ⟨met, searched, allowed⟩
        rw [unitName_class folders some_stem]
        exact .unit folders stem some_stem descriptor small accessible rfl short
      next => cases loaded
    · rintro @⟨folders, stem, _, _, some_stem, descriptor, small, accessible, rfl, short⟩
      obtain ⟨met, searched, allowed⟩ := (accessible_iff some_name).mp accessible
      have accepted := isUnitFile_iff.mpr ⟨stem, rfl, some_stem, descriptor⟩
      have read := toOption_eq_some_iff.mpr <| (wf.readUnit_join_iff resolved inside below).mpr
        ⟨rfl, small, short, searched, allowed⟩
      refine ⟨met, ?_⟩
      simp only [rawUnit?, List.getLastD_concat, accepted, if_true, read, Option.map_some,
        unitName_class folders some_stem]

theorem HoldsUnit.unit_eq {folders : Location} {stem : String} {unit : Scan.RawUnit}
    (holds : HoldsUnit t place path (folders ++ [stem ++ ".class"], .file content) unit) :
    unit = ⟨Path.shown (Path.join path (Text.join "/" (folders ++ [stem ++ ".class"]))),
      Text.join "." ((folders ++ [if stem = "." then ".." else stem]).map Path.shown),
      content.toList⟩ := by
  generalize met : (folders ++ [stem ++ ".class"], Item.file content) = visit at holds
  obtain @⟨_, _, _, _, _, _, _, _, rfl, _⟩ := holds
  simp only [Prod.mk.injEq, Item.file.injEq] at met
  obtain ⟨names, rfl⟩ := met
  obtain ⟨rfl, last⟩ := List.append_inj' names rfl
  rw [List.singleton_inj, String.append_left_inj] at last
  subst last
  rfl

theorem HoldsUnit.unique {visit : Location × Item} {unit again : Scan.RawUnit}
    (holds : HoldsUnit t place path visit unit) (also : HoldsUnit t place path visit again) :
    unit = again := by
  obtain @⟨folders, stem, _, content, _, _, _, _, rfl, _⟩ := holds
  exact also.unit_eq.symm

/-- A file whose names are text gives its unit just these names. -/
theorem HoldsUnit.name_eq {folders : List String} {stem : String} {unit : Scan.RawUnit}
    (holds : HoldsUnit t place path
      ((folders ++ [stem ++ ".class"]).map Path.ofText, .file content) unit) :
    unit.name = Text.join "." (folders ++ [if stem = "." then ".." else stem]) ∧
      unit.bytes = content.toList := by
  have extension : Path.ofText ".class" = ".class" := by decide
  have dot : Path.ofText "." = "." ∧ Path.shown ".." = ".." := by decide
  have names : (folders ++ [stem ++ ".class"]).map Path.ofText =
      folders.map Path.ofText ++ [Path.ofText stem ++ ".class"] := by
    rw [List.map_append, List.map_singleton, Path.ofText_append, extension]
  have last : Path.shown (if Path.ofText stem = "." then ".." else Path.ofText stem) =
      if stem = "." then ".." else stem := by
    by_cases alone : stem = "."
    · rw [if_pos alone, alone, if_pos dot.1, dot.2]
    · have other : Path.ofText stem ≠ "." := by
        rw [← dot.1]
        exact fun same => alone (Path.ofText_injective same)
      rw [if_neg alone, if_neg other, Path.shown_ofText]
  have shown : (folders.map Path.ofText).map Path.shown = folders := by
    simp [Function.comp_def, Path.shown_ofText]
  rw [names] at holds
  rw [holds.unit_eq, List.map_append, List.map_singleton, shown, last]
  exact ⟨rfl, rfl⟩

theorem Loads.mem_iff {visits : List (Location × Item)} {units : List Scan.RawUnit}
    {unit : Scan.RawUnit} (loads : Loads t place path visits units) :
    unit ∈ units ↔ ∃ visit ∈ visits, HoldsUnit t place path visit unit := by
  induction loads with
  | done => simp
  | @unit visit first _ _ holds _ ih =>
    have same : unit = first ↔ HoldsUnit t place path visit unit :=
      ⟨fun same => same ▸ holds, fun again => again.unique holds⟩
    rw [List.mem_cons, ih, List.exists_mem_cons_iff, same]
  | pass empty _ ih => rw [ih, List.exists_mem_cons_iff, or_iff_right (empty unit)]

theorem loads_filterMap {load : Location × Item → Option Scan.RawUnit}
    {visits : List (Location × Item)}
    (spec : ∀ visit ∈ visits, ∀ unit, load visit = some unit ↔ HoldsUnit t place path visit unit) :
    Loads t place path visits (visits.filterMap load) := by
  induction visits with
  | nil => exact .done
  | cons visit visits ih =>
    rw [List.forall_mem_cons] at spec
    cases loaded : load visit with
    | none =>
      rw [List.filterMap_cons_none loaded]
      refine .pass (fun unit holds => ?_) (ih spec.2)
      rw [← spec.1, loaded] at holds
      cases holds
    | some unit =>
      rw [List.filterMap_cons_some loaded]
      exact .unit ((spec.1 unit).mp loaded) (ih spec.2)

/-! ## Loading -/

theorem filterMap_walk (t : FileTree) (place : Location) (path : String) :
    (t.walk place).filterMap (t.rawUnit? path) =
      (t.below place).filterMap (t.loaded? place path) :=
  List.filterMap_filter

theorem loadClasses_eq (resolved : t.resolve false path = .ok place)
    (inside : t.isDirectoryAt place = true) :
    t.loadClasses path =
      .ok ⟨t.inputName path, (t.below place).filterMap (t.loaded? place path)⟩ := by
  have following := resolve_following resolved inside
  have found {followLast : Bool} (leads : t.resolve followLast path = .ok place) :
      t.find followLast path = .ok .directory :=
    find_eq_ok_iff.mpr ⟨place, leads, isDirectoryAt_iff.mp inside⟩
  unfold loadClasses requireNoLink isDirectory
  rw [found resolved, found following, following, ← filterMap_walk]
  rfl

theorem WellFormed.loads (wf : t.WellFormed) (resolved : t.resolve false path = .ok place)
    (inside : t.isDirectoryAt place = true) :
    Loads t place path (t.below place) ((t.below place).filterMap (t.loaded? place path)) := by
  refine loads_filterMap fun visit listed unit => ?_
  exact wf.loaded?_eq_some_iff resolved inside (wf.mem_below_iff.mp listed) unit

end Units

/-! ## What lies outside -/

/-- An item without where it leads to. -/
def Item.unaimed : Item → Item
  | .link _ => .link ""
  | .file content => .file content
  | .directory => .directory

/-- The same lies below two places, but for where links lead to, and the same may be done there. -/
structure AgreeBelow (t : FileTree) (place : Location) (other : FileTree) (elsewhere : Location) :
    Prop where
  items : ∀ names, names ≠ [] →
    (t.at? (place ++ names)).map Item.unaimed = (other.at? (elsewhere ++ names)).map Item.unaimed
  rights : ∀ right names,
    t.permits right (place ++ names) = other.permits right (elsewhere ++ names)

def unaimed (visit : Location × Item) : Location × Item := (visit.1, visit.2.unaimed)

section Outside

variable {t other : FileTree} {path : String} {place elsewhere : Location}
  {visits : List (Location × Item)} {units others : List Scan.RawUnit}

theorem holdsUnit_unaimed_iff {visit : Location × Item} {unit : Scan.RawUnit} :
    HoldsUnit t place path (unaimed visit) unit ↔ HoldsUnit t place path visit unit := by
  obtain ⟨names, item⟩ := visit
  cases item with
  | file content => rfl
  | directory => rfl
  | link target => exact ⟨nofun, nofun⟩

theorem Loads.unaimed (loads : Loads t place path visits units) :
    Loads t place path (visits.map unaimed) units := by
  induction loads with
  | done => exact .done
  | unit holds _ ih => exact .unit (holdsUnit_unaimed_iff.mpr holds) ih
  | pass empty _ ih =>
    exact .pass (fun unit holds => empty unit (holdsUnit_unaimed_iff.mp holds)) ih

theorem Loads.unique (loads : Loads t place path visits units)
    (also : Loads t place path visits others) : units = others := by
  induction loads generalizing others with
  | done => cases also; rfl
  | unit holds _ ih =>
    cases also with
    | unit again rest => rw [holds.unique again, ih rest]
    | pass empty => exact absurd holds (empty _)
  | pass empty _ ih =>
    cases also with
    | unit again => exact absurd again (empty _)
    | pass _ rest => exact ih rest

theorem accessible_congr
    (rights : ∀ right names, t.permits right (place ++ names) =
      other.permits right (elsewhere ++ names)) (names : Location) :
    t.Accessible place names ↔ other.Accessible elsewhere names := by
  have here (right : Right) : t.permits right place = other.permits right elsewhere := by
    simpa using rights right []
  induction names generalizing place elsewhere with
  | nil => rw [Accessible, Accessible, here]
  | cons name rest ih =>
    have onward (right : Right) (names : Location) : t.permits right (place ++ [name] ++ names) =
        other.permits right (elsewhere ++ [name] ++ names) := by
      rw [List.append_assoc, List.append_assoc, rights]
    rw [Accessible, Accessible, here, here]
    refine and_congr_right fun _ => and_congr_right fun _ => ih onward fun right => ?_
    exact rights right [name]

theorem AgreeBelow.loads (agree : AgreeBelow t place other elsewhere)
    (loads : Loads t place path visits units) : Loads other elsewhere path visits units := by
  have holds_iff (visit : Location × Item) (unit : Scan.RawUnit) :
      HoldsUnit t place path visit unit ↔ HoldsUnit other elsewhere path visit unit := by
    constructor
    · rintro ⟨folders, stem, some_stem, descriptor, small, accessible, whole, short⟩
      exact .unit folders stem some_stem descriptor small
        ((accessible_congr agree.rights _).mp accessible) whole short
    · rintro ⟨folders, stem, some_stem, descriptor, small, accessible, whole, short⟩
      exact .unit folders stem some_stem descriptor small
        ((accessible_congr agree.rights _).mpr accessible) whole short
  induction loads with
  | done => exact .done
  | unit holds _ ih => exact .unit ((holds_iff _ _).mp holds) ih
  | pass empty _ ih => exact .pass (fun unit holds => empty unit ((holds_iff _ _).mpr holds)) ih

theorem WellFormed.mem_map_unaimed (wf : t.WellFormed) {names : Location} {item : Item} :
    (names, item) ∈ (t.below place).map FileTree.unaimed ↔
      names ≠ [] ∧ (t.at? (place ++ names)).map Item.unaimed = some item := by
  simp only [List.mem_map, Option.map_eq_some_iff]
  constructor
  · rintro ⟨⟨_, kept⟩, listed, same⟩
    cases same
    obtain ⟨some_name, found⟩ := wf.liesBelow_iff.mp (wf.mem_below_iff.mp listed)
    exact ⟨some_name, kept, found, rfl⟩
  · rintro ⟨some_name, kept, found, rfl⟩
    exact ⟨(names, kept), wf.mem_below_iff.mpr (wf.liesBelow_iff.mpr ⟨some_name, found⟩), rfl⟩

theorem WellFormed.pairwise_map_unaimed (wf : t.WellFormed) (place : Location) :
    ((t.below place).map FileTree.unaimed).Pairwise Before :=
  List.pairwise_map.mpr (wf.pairwise_below place)

theorem AgreeBelow.map_unaimed_below (agree : AgreeBelow t place other elsewhere)
    (wf : t.WellFormed) (also : other.WellFormed) :
    (t.below place).map FileTree.unaimed = (other.below elsewhere).map FileTree.unaimed := by
  refine (wf.pairwise_map_unaimed place).eq_of_mem_iff (also.pairwise_map_unaimed elsewhere) ?_
  rintro ⟨names, item⟩
  rw [wf.mem_map_unaimed, also.mem_map_unaimed]
  refine and_congr_right fun some_name => ?_
  rw [agree.items names some_name]

/-- What is loaded depends only on what lies below the directory, and not on where links lead to. -/
theorem AgreeBelow.units_eq (agree : AgreeBelow t place other elsewhere) (wf : t.WellFormed)
    (also : other.WellFormed) (loads : Loads t place path (t.below place) units)
    (again : Loads other elsewhere path (other.below elsewhere) others) : others = units := by
  have same := (agree.loads loads).unaimed
  rw [agree.map_unaimed_below wf also] at same
  exact again.unaimed.unique same

theorem lookup_map_unaimed (items : List (Location × Item)) (location : Location) :
    (items.map FileTree.unaimed).lookup location = (items.lookup location).map Item.unaimed := by
  induction items with
  | nil => rfl
  | cons entry items ih =>
    obtain ⟨key, item⟩ := entry
    rw [List.map_cons, FileTree.unaimed, List.lookup_cons, List.lookup_cons, ih]
    cases location == key <;> rfl

/-- Trees that differ only in where their links lead to agree everywhere. -/
theorem agreeBelow_of_items
    (same : t.items.map FileTree.unaimed = other.items.map FileTree.unaimed)
    (allowed : t.denied = other.denied) : AgreeBelow t place other place := by
  constructor
  · intro names some_name
    have below : place ++ names ≠ [] := by simp [some_name]
    rw [at?, at?, if_neg below, if_neg below, ← lookup_map_unaimed, ← lookup_map_unaimed, same]
  · intro right names
    rw [permits, permits, allowed]

theorem inputName_eq (resolved : t.resolve true path = .ok place) :
    t.inputName path = "dir:" ++ Text.replace '.' '_'
      (Path.shown ((Path.fileName? path).getD (place.getLast?.getD "classes"))) := by
  unfold inputName
  rw [resolved]
  rfl

end Outside

/-- A directory with a class file further below and with a link. -/
def linkedClasses (target : String) : FileTree where
  items := [(["d"], .directory), (["d", "l"], .link target), (["d", "p"], .directory),
    (["d", "p", "A.class"], .file ⟨#[1]⟩)]
  workingDirectory := []

theorem resolve_linkedClasses (target : String) :
    (linkedClasses target).resolve false "d" = .ok ["d"] := by
  have named : IsFileName "d" := by decide
  have looked : (linkedClasses target).LooksUp [] "d" := ⟨rfl, fun _ => rfl⟩
  exact resolve_eq_ok_iff.mpr ⟨["d"], rfl, .into looked named.toIsName rfl nofun .here⟩

/-- A directory with one file in it. -/
def holding (name : String) (denied : List (Location × Right)) : FileTree where
  items := [(["d"], .directory), (["d", name], .file ⟨#[0]⟩)]
  workingDirectory := []
  denied

/-- The path of the directory, with parts that mean nothing. -/
def roundabout : Nat → String
  | 0 => "d"
  | n + 1 => roundabout n ++ "/" ++ "."

theorem split_roundabout (n : Nat) :
    Text.split '/' (roundabout n) = "d" :: List.replicate n "." := by
  induction n with
  | zero => rfl
  | succ n ih =>
    rw [roundabout, Path.split_slash, ih, List.replicate_succ']
    rfl

theorem length_roundabout (n : Nat) : (roundabout n).length = 1 + 2 * n := by
  induction n with
  | zero => rfl
  | succ n ih =>
    have dot : "/".length = 1 ∧ ".".length = 1 := by decide
    rw [roundabout, String.length_append, String.length_append, ih, dot.1, dot.2]
    omega

theorem roundabout_ne_empty (n : Nat) : roundabout n ≠ "" := by
  intro empty
  have size := length_roundabout n
  rw [empty, String.length_empty] at size
  omega

theorem no_nul_roundabout (n : Nat) : '\x00' ∉ (roundabout n).toList := by
  induction n with
  | zero => decide
  | succ n ih => simp [roundabout, ih]

section Holding

variable {name : String} {denied : List (Location × Right)} {n : Nat}

theorem wellFormed_holding (named : IsFileName name) : (holding name denied).WellFormed := by
  have directory : IsFileName "d" := by decide
  constructor
  · simp [holding]
  · intro entry listed
    rcases List.mem_cons.mp listed with rfl | listed
    · exact ⟨by simp, rfl, directory⟩
    · rw [List.mem_singleton.mp listed]
      exact ⟨by simp, rfl, named⟩

theorem resolve_roundabout (entered : (holding name denied).permits .search [] = true)
    (searched : 0 < n → (holding name denied).permits .search ["d"] = true)
    (short : 1 + 2 * n ≤ maxPathLength) :
    (holding name denied).resolve false (roundabout n) = .ok ["d"] := by
  have named : IsFileName "d" := by decide
  have idle : ∀ part ∈ List.replicate n ".", Path.isTrivial part = true := by
    intro part listed
    rw [List.eq_of_mem_replicate listed]
    decide
  have looked : ∀ part ∈ List.replicate n ".", (holding name denied).LooksUp ["d"] part := by
    intro part listed
    have some_dot : 0 < n := Nat.pos_of_ne_zero (List.mem_replicate.mp listed).1
    exact ⟨rfl, fun _ => searched some_dot⟩
  have start : startOf (holding name denied).workingDirectory (roundabout n) = [] := ite_self _
  refine resolve_eq_ok_iff.mpr ⟨"d" :: List.replicate n ".", partsOf_eq_ok_iff.mpr
    ⟨roundabout_ne_empty n, no_nul_roundabout n, ?_, (split_roundabout n).symm⟩, ?_⟩
  · rwa [length_roundabout]
  · rw [start]
    exact .into ⟨rfl, fun _ => entered⟩ named.toIsName rfl nofun (leads_trivial looked idle)

theorem below_holding (name : String) (denied : List (Location × Right)) :
    (holding name denied).below ["d"] = [([name], .file ⟨#[0]⟩)] := by
  have inside : (holding name denied).items.filterMap (relativeTo ["d"]) =
      [([name], .file ⟨#[0]⟩)] := by
    simp [holding, relativeTo]
  rw [below_eq, inside, List.mergeSort_singleton]

theorem load_holding (wf : (holding name denied).WellFormed)
    (resolved : (holding name denied).resolve false (roundabout n) = .ok ["d"])
    {units : List Scan.RawUnit}
    (loads : Loads (holding name denied) ["d"] (roundabout n) [([name], .file ⟨#[0]⟩)] units) :
    (holding name denied).find false (roundabout n) = .ok .directory ∧
      (holding name denied).LiesBelow ["d"] [name] (.file ⟨#[0]⟩) ∧
      ∃ input, (holding name denied).loadClasses (roundabout n) = .ok input ∧
        input.units = units := by
  have again := wf.loads resolved rfl
  have found : (holding name denied).at? ["d", name] = some (.file ⟨#[0]⟩) := by
    simp [at?, holding, List.lookup_cons]
  refine ⟨find_eq_ok_iff.mpr ⟨_, resolved, rfl⟩, .entry found, _, loadClasses_eq resolved rfl, ?_⟩
  rw [below_holding] at again ⊢
  exact again.unique loads

end Holding

theorem HoldsUnit.length_le {t : FileTree} {place : Location} {path : String}
    {visit : Location × Item} {unit : Scan.RawUnit} (holds : HoldsUnit t place path visit unit) :
    (Path.join path (Text.join "/" visit.1)).length ≤ 4095 := by
  obtain @⟨_, _, _, _, _, _, _, _, rfl, short⟩ := holds
  exact short

theorem HoldsUnit.accessible {t : FileTree} {place : Location} {path : String}
    {visit : Location × Item} {unit : Scan.RawUnit} (holds : HoldsUnit t place path visit unit) :
    t.Accessible place visit.1 := by
  obtain ⟨_, _, _, _, _, accessible, _, _⟩ := holds
  exact accessible

/-- Two directories that hold the same, and a link into one of them. -/
def parted (target : String) : FileTree where
  items := [(["a"], .link target), (["p"], .directory), (["p", "x"], .directory),
    (["p", "x", "A.class"], .file ⟨#[0]⟩), (["p", "x", "in"], .directory), (["q"], .directory),
    (["q", "y"], .directory), (["q", "y", "A.class"], .file ⟨#[0]⟩), (["q", "y", "in"], .directory)]
  workingDirectory := []

theorem agreeBelow_parted (target other : String) :
    (parted target).AgreeBelow ["p", "x"] (parted other) ["q", "y"] := by
  refine ⟨fun names _ => ?_, fun _ _ => rfl⟩
  simp [at?, parted, List.lookup_cons]

theorem resolve_parted {target outer inner : String}
    (cut : Text.split '/' target = [outer, inner, "in"])
    (named : IsFileName outer) (also : IsFileName inner)
    (first : (parted target).at? [outer] = some .directory)
    (second : (parted target).at? [outer, inner] = some .directory)
    (third : (parted target).at? [outer, inner, "in"] = some .directory) :
    (parted target).resolve false "a/.." = .ok [outer, inner] := by
  have link : IsFileName "a" := by decide
  have ending : IsFileName "in" := by decide
  have looked {place : Location} {part : String}
      (found : (parted target).at? place = some .directory) : (parted target).LooksUp place part :=
    ⟨isDirectoryAt_iff.mpr found, fun _ => rfl⟩
  have inside : (parted target).Leads false 39 [] [outer, inner, "in", ".."] [outer, inner] :=
    .into (looked rfl) named.toIsName first nofun <|
      .into (looked first) also.toIsName second nofun <|
      .into (looked second) ending.toIsName third nofun <| .up (looked third) .here
  refine resolve_eq_ok_iff.mpr ⟨["a", ".."], rfl, .via (looked rfl) link.toIsName rfl
    (.inl (by decide)) ?_⟩
  rw [cut]
  have start : startOf [] target = [] := ite_self _
  exact start.symm ▸ inside

theorem load_parted {target outer inner : String}
    (resolved : (parted target).resolve false "a/.." = .ok [outer, inner])
    (inside : (parted target).isDirectoryAt [outer, inner] = true) :
    ∃ input, (parted target).loadClasses "a/.." = .ok input ∧
      input.name = "dir:" ++ Text.replace '.' '_' (Path.shown inner) := by
  have unnamed : Path.fileName? "a/.." = none := by decide
  refine ⟨_, loadClasses_eq resolved inside, ?_⟩
  dsimp only
  rw [inputName_eq (resolve_following resolved inside), unnamed]
  rfl

end ClassCoupling.FileTree
