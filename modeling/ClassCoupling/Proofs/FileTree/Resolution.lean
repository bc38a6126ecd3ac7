import ClassCoupling.FileTree.Basic
import ClassCoupling.Proofs.Result
import ClassCoupling.Proofs.Text.Cut

/-!
# Where paths lead

Resolution as a relation: one rule for each thing a part of a path can be. Readers and writers follow
the same rules up to the last name of a path.
-/

namespace ClassCoupling.FileTree

/-- A part of a path that names an entry of a directory. -/
structure IsName (part : String) : Prop where
  not_trivial : Path.isTrivial part = false
  not_up : part ≠ ".."
  short : part.length ≤ maxNameLength

theorem IsName.ne_empty {part : String} (named : IsName part) : part ≠ "" := by
  rintro rfl
  exact absurd named.not_trivial (by decide)

/-- A part of a path can be looked up at a location. An empty one needs no right to search there. -/
structure LooksUp (t : FileTree) (current : Location) (part : String) : Prop where
  inside : t.isDirectoryAt current = true
  allowed : part ≠ "" → t.permits .search current = true

/-- The parts of a path lead from a location to a place, over no more than `links` links. -/
inductive Leads (t : FileTree) (followLast : Bool) :
    Nat → Location → List String → Location → Prop
  | here {links current} : Leads t followLast links current [] current
  | trivial {links current part rest place} :
      t.LooksUp current part → Path.isTrivial part = true →
      Leads t followLast links current rest place →
      Leads t followLast links current (part :: rest) place
  | up {links current rest place} :
      t.LooksUp current ".." →
      Leads t followLast links current.dropLast rest place →
      Leads t followLast links current (".." :: rest) place
  | into {links current part rest item place} :
      t.LooksUp current part → IsName part →
      t.at? (current ++ [part]) = some item → (∀ target, item ≠ .link target) →
      Leads t followLast links (current ++ [part]) rest place →
      Leads t followLast links current (part :: rest) place
  /-- A link at the very end is not followed. -/
  | stop {links current part target} :
      t.LooksUp current part → IsName part →
      t.at? (current ++ [part]) = some (.link target) → followLast = false →
      Leads t followLast links current [part] (current ++ [part])
  | via {links current part rest target place} :
      t.LooksUp current part → IsName part →
      t.at? (current ++ [part]) = some (.link target) → (rest ≠ [] ∨ followLast = true) →
      Leads t followLast links (startOf current target) (Text.split '/' target ++ rest) place →
      Leads t followLast (links + 1) current (part :: rest) place

variable {t : FileTree} {followLast : Bool} {links : Nat} {current place directory : Location}
  {part name path : String} {parts front rest : List String}

theorem IsName.of_checks (not_trivial : ¬Path.isTrivial part = true) (not_up : ¬part = "..")
    (short : ¬maxNameLength < part.length) : IsName part :=
  ⟨Bool.not_eq_true _ ▸ not_trivial, not_up, Nat.le_of_not_lt short⟩

theorem IsName.passes (named : IsName part) :
    Path.isTrivial part = false ∧ ¬part = ".." ∧ ¬maxNameLength < part.length :=
  ⟨named.not_trivial, named.not_up, Nat.not_lt.mpr named.short⟩

theorem LooksUp.of_checks (inside : ¬(!t.isDirectoryAt current) = true)
    (allowed : ¬(part ≠ "" && !t.permits .search current) = true) : t.LooksUp current part :=
  ⟨by simpa using inside, by simpa using allowed⟩

theorem LooksUp.not_outside (looked : t.LooksUp current part) :
    ¬(!t.isDirectoryAt current) = true := by
  simp [looked.inside]

theorem LooksUp.not_denied (looked : t.LooksUp current part) :
    ¬(part ≠ "" && !t.permits .search current) = true := by
  simpa using looked.allowed

theorem leads_of_follow (h : t.follow followLast links current parts = .ok place) :
    Leads t followLast links current parts place := by
  fun_induction follow t followLast links current parts with
  | case1 => cases h; exact .here
  | case2 => cases h
  | case3 => cases h
  | case4 links current part rest inside allowed trivial ih =>
    exact .trivial (.of_checks inside allowed) trivial (ih h)
  | case5 links current rest inside allowed _ ih => exact .up (.of_checks inside allowed) (ih h)
  | case6 => cases h
  | case7 => cases h
  | case8 links current part rest inside allowed trivial up short next target found last =>
    obtain ⟨rfl, kept⟩ := last
    obtain rfl : next = place := by simpa using h
    exact .stop (.of_checks inside allowed) (.of_checks trivial up short) found (by simpa using kept)
  | case9 => cases h
  | case10 current part rest inside allowed trivial up short next target found last links ih =>
    have followed : rest ≠ [] ∨ followLast = true := by
      simpa only [not_and_or, Bool.not_eq_true', Bool.not_eq_false] using last
    exact .via (.of_checks inside allowed) (.of_checks trivial up short) found followed (ih h)
  | case11 links current part rest inside allowed trivial up short next item solid found ih =>
    exact .into (.of_checks inside allowed) (.of_checks trivial up short) found solid (ih h)

theorem Leads.follow_eq (leads : Leads t followLast links current parts place) :
    t.follow followLast links current parts = .ok place := by
  induction leads with
  | here => rw [follow]
  | trivial looked trivial _ ih =>
    rw [follow, if_neg looked.not_outside, if_neg looked.not_denied, if_pos trivial, ih]
  | up looked _ ih =>
    have not_trivial : ¬Path.isTrivial ".." = true := by decide
    rw [follow, if_neg looked.not_outside, if_neg looked.not_denied, if_neg not_trivial, if_pos rfl,
      ih]
  | @into links current part rest item place looked named found solid _ ih =>
    rw [follow, if_neg looked.not_outside, if_neg looked.not_denied]
    cases item with
    | link target => exact absurd rfl (solid target)
    | directory => simp [named.passes, found, ih]
    | file content => simp [named.passes, found, ih]
  | stop looked named found kept =>
    rw [follow, if_neg looked.not_outside, if_neg looked.not_denied]
    simp [named.passes, found, kept]
  | via looked named found followed _ ih =>
    rw [follow, if_neg looked.not_outside, if_neg looked.not_denied]
    simp only [named.passes, found, ih, Bool.false_eq_true, if_false]
    apply if_neg
    simpa [imp_iff_not_or] using followed

theorem follow_eq_ok_iff :
    t.follow followLast links current parts = .ok place ↔
      Leads t followLast links current parts place :=
  ⟨leads_of_follow, Leads.follow_eq⟩

theorem Leads.unique {other : Location} (leads : Leads t followLast links current parts place)
    (again : Leads t followLast links current parts other) : place = other :=
  Except.ok.inj (leads.follow_eq.symm.trans again.follow_eq)

/-! ## Paths -/

theorem partsOf_eq_ok_iff :
    partsOf path = .ok parts ↔
      path ≠ "" ∧ '\x00' ∉ path.toList ∧ path.length ≤ maxPathLength ∧
        parts = Text.split '/' path := by
  unfold partsOf
  split
  next empty => simp [empty]
  next some_text =>
    split
    next nul => simp_all
    next no_nul =>
      split
      next long => simp [Nat.not_le_of_lt long]
      next short => simp_all [eq_comm]

theorem resolve_eq_ok_iff :
    t.resolve followLast path = .ok place ↔ ∃ parts, partsOf path = .ok parts ∧
      Leads t followLast maxLinks (startOf t.workingDirectory path) parts place := by
  simp only [resolve, bind_eq_ok_iff, follow_eq_ok_iff]

theorem find_eq_ok_iff {item : Item} :
    t.find followLast path = .ok item ↔
      ∃ place, t.resolve followLast path = .ok place ∧ t.at? place = some item := by
  unfold find
  rw [bind_eq_ok_iff]
  refine exists_congr fun place => and_congr_right fun _ => ?_
  cases t.at? place <;> simp

theorem require_eq_ok_iff {right : Right} {done : Unit} :
    t.require right place = .ok done ↔ t.permits right place = true := by
  unfold require
  split <;> simp_all

theorem read_eq_ok_iff {content : ByteArray} :
    t.read path = .ok content ↔ ∃ place, t.resolve true path = .ok place ∧
      t.at? place = some (.file content) ∧ t.permits .read place = true := by
  unfold read
  rw [bind_eq_ok_iff]
  refine exists_congr fun place => and_congr_right fun _ => ?_
  cases t.at? place with
  | none => exact ⟨nofun, nofun⟩
  | some item =>
    simp only [bind_eq_ok_iff, require_eq_ok_iff, Option.some.injEq]
    cases item with
    | file old => simp [pure, Except.pure, and_comm]
    | directory => simp [throw, throwThe, MonadExceptOf.throw]
    | link target => simp [throw, throwThe, MonadExceptOf.throw]

/-! ## Parts in a row -/

/-- A last link is followed only on request, so the way to a directory has to be one that follows
it. -/
theorem Leads.append (first : Leads t true links current front directory)
    (second : ∀ left, Leads t followLast left directory rest place) (more : rest ≠ []) :
    Leads t followLast links current (front ++ rest) place := by
  induction first with
  | here => exact second _
  | trivial looked trivial _ ih => exact .trivial looked trivial (ih second)
  | up looked _ ih => exact .up looked (ih second)
  | into looked named found solid _ ih => exact .into looked named found solid (ih second)
  | stop _ _ _ kept => cases kept
  | via looked named found _ _ ih =>
    have onward := ih second
    rw [List.append_assoc] at onward
    exact .via looked named found (.inl (by simp [more])) onward

theorem Leads.split (leads : Leads t followLast links current (front ++ rest) place)
    (followed : rest ≠ [] ∨ followLast = true) :
    ∃ middle left, Leads t true links current front middle ∧
      Leads t followLast left middle rest place := by
  -- On the way and not on the parts: a link puts the parts of its target in front of the rest.
  generalize whole : front ++ rest = parts at leads
  induction leads generalizing front with
  | @here links current =>
    obtain ⟨rfl, rfl⟩ := List.append_eq_nil_iff.mp whole
    exact ⟨current, links, .here, .here⟩
  | @trivial links current part others place looked trivial leads ih =>
    rcases List.append_eq_cons_iff.mp whole with ⟨rfl, rfl⟩ | ⟨front, rfl, rfl⟩
    · exact ⟨current, links, .here, .trivial looked trivial leads⟩
    · obtain ⟨middle, left, first, second⟩ := ih rfl
      exact ⟨middle, left, .trivial looked trivial first, second⟩
  | @up links current others place looked leads ih =>
    rcases List.append_eq_cons_iff.mp whole with ⟨rfl, rfl⟩ | ⟨front, rfl, rfl⟩
    · exact ⟨current, links, .here, .up looked leads⟩
    · obtain ⟨middle, left, first, second⟩ := ih rfl
      exact ⟨middle, left, .up looked first, second⟩
  | @into links current part others item place looked named found solid leads ih =>
    rcases List.append_eq_cons_iff.mp whole with ⟨rfl, rfl⟩ | ⟨front, rfl, rfl⟩
    · exact ⟨current, links, .here, .into looked named found solid leads⟩
    · obtain ⟨middle, left, first, second⟩ := ih rfl
      exact ⟨middle, left, .into looked named found solid first, second⟩
  | @stop links current part target looked named found kept =>
    rcases List.append_eq_cons_iff.mp whole with ⟨rfl, rfl⟩ | ⟨front, rfl, none⟩
    · exact ⟨current, links, .here, .stop looked named found kept⟩
    · obtain ⟨rfl, rfl⟩ := List.append_eq_nil_iff.mp none.symm
      simp [kept] at followed
  | @via links current part others target place looked named found last leads ih =>
    rcases List.append_eq_cons_iff.mp whole with ⟨rfl, rfl⟩ | ⟨front, rfl, rfl⟩
    · exact ⟨current, links + 1, .here, .via looked named found last leads⟩
    · obtain ⟨middle, left, first, second⟩ := ih (List.append_assoc _ _ _)
      exact ⟨middle, left, .via looked named found (.inr rfl) first, second⟩

/-- Parts that mean nothing lead nowhere else. -/
theorem Leads.eq_of_trivial (leads : Leads t followLast links current parts place)
    (idle : ∀ part ∈ parts, Path.isTrivial part = true) : place = current := by
  induction leads with
  | here => rfl
  | trivial _ _ _ ih => exact ih fun part listed => idle part (List.mem_cons_of_mem _ listed)
  | up => exact absurd (idle _ List.mem_cons_self) (by decide)
  | into _ named => exact absurd (idle _ List.mem_cons_self) (by simp [named.not_trivial])
  | stop _ named => exact absurd (idle _ List.mem_cons_self) (by simp [named.not_trivial])
  | via _ named => exact absurd (idle _ List.mem_cons_self) (by simp [named.not_trivial])

theorem leads_trivial (looked : ∀ part ∈ parts, t.LooksUp current part)
    (idle : ∀ part ∈ parts, Path.isTrivial part = true) :
    Leads t followLast links current parts current := by
  induction parts with
  | nil => exact .here
  | cons part parts ih =>
    rw [List.forall_mem_cons] at looked idle
    exact .trivial looked.1 idle.1 (ih looked.2 idle.2)

/-- A name of what is no link leads on to that. -/
theorem leads_name_iff {item : Item} (named : IsName part)
    (found : t.at? (current ++ [part]) = some item) (solid : ∀ target, item ≠ .link target) :
    Leads t followLast links current (part :: rest) place ↔
      t.LooksUp current part ∧ Leads t followLast links (current ++ [part]) rest place := by
  have no_link (target : String) : t.at? (current ++ [part]) ≠ some (.link target) := by
    rw [found]
    exact fun same => solid target (Option.some.inj same)
  constructor
  · intro leads
    cases leads with
    | trivial _ trivial => simp [named.not_trivial] at trivial
    | up => exact absurd rfl named.not_up
    | into looked _ _ _ onward => exact ⟨looked, onward⟩
    | stop _ _ link => exact absurd link (no_link _)
    | via _ _ link => exact absurd link (no_link _)
  · rintro ⟨looked, onward⟩
    exact .into looked named found solid onward

/-- What means nothing at the end of a way to a directory can be exchanged for slashes. -/
theorem Leads.exchange_trivial {idle slashes : List String}
    (leads : Leads t true links current (front ++ idle) directory)
    (inside : t.isDirectoryAt directory = true) (nothing : ∀ part ∈ idle, Path.isTrivial part = true)
    (empty : ∀ part ∈ slashes, part = "") :
    Leads t true links current (front ++ slashes) directory := by
  obtain ⟨middle, left, first, second⟩ := leads.split (.inr rfl)
  obtain rfl := second.eq_of_trivial nothing
  have looked : ∀ part ∈ slashes, t.LooksUp directory part :=
    fun part listed => ⟨inside, absurd (empty part listed)⟩
  have idle : ∀ part ∈ slashes, Path.isTrivial part = true := by
    intro part listed
    rw [empty part listed]
    decide
  cases slashes with
  | nil => simpa using first
  | cons part slashes =>
    exact first.append (fun left => leads_trivial looked idle) (List.cons_ne_nil _ _)

/-- A last link that is kept is the end, so a way that ends elsewhere follows every link. -/
theorem Leads.following (leads : Leads t followLast links current parts place)
    (solid : ∀ target, t.at? place ≠ some (.link target)) :
    Leads t true links current parts place := by
  induction leads with
  | here => exact .here
  | trivial looked trivial _ ih => exact .trivial looked trivial (ih solid)
  | up looked _ ih => exact .up looked (ih solid)
  | into looked named found item _ ih => exact .into looked named found item (ih solid)
  | stop _ _ found => exact absurd found (solid _)
  | via looked named found _ _ ih => exact .via looked named found (.inr rfl) (ih solid)

theorem isDirectoryAt_iff : t.isDirectoryAt place = true ↔ t.at? place = some .directory := by
  unfold isDirectoryAt
  split <;> simp_all

theorem resolve_following (resolved : t.resolve false path = .ok place)
    (inside : t.isDirectoryAt place = true) : t.resolve true path = .ok place := by
  obtain ⟨parts, taken, leads⟩ := resolve_eq_ok_iff.mp resolved
  have solid (target : String) : t.at? place ≠ some (.link target) := by
    rw [isDirectoryAt_iff.mp inside]
    exact nofun
  exact resolve_eq_ok_iff.mpr ⟨parts, taken, leads.following solid⟩

/-! ## Putting a file -/

theorem lookup_filter_ne {other : Location} (elsewhere : other ≠ place)
    (items : List (Location × Item)) :
    (items.filter (·.1 ≠ place)).lookup other = items.lookup other := by
  induction items with
  | nil => rfl
  | cons entry items ih =>
    obtain ⟨key, item⟩ := entry
    by_cases same : key = place
    · have unasked : (other == key) = false := by simp [same, elsewhere]
      rw [List.filter_cons_of_neg (by simp [same]), ih, List.lookup_cons, unasked]
    · rw [List.filter_cons_of_pos (by simp [same]), List.lookup_cons, List.lookup_cons, ih]

theorem at?_put_self {item : Item} (below : place ≠ []) :
    (t.put place item).at? place = some item := by
  have removed : (t.items.filter (·.1 ≠ place)).lookup place = none := by
    rw [List.lookup_eq_none_iff]
    intro entry kept
    have other : entry.1 ≠ place := by simpa using (List.mem_filter.mp kept).2
    simpa using other.symm
  rw [at?, if_neg below, put]
  dsimp only
  rw [List.lookup_append, removed]
  simp

theorem at?_put_of_ne {item : Item} {other : Location} (elsewhere : other ≠ place) :
    (t.put place item).at? other = t.at? other := by
  have unasked : [(place, item)].lookup other = none := by
    simpa [List.lookup_eq_none_iff] using elsewhere
  unfold at? put
  dsimp only
  rw [List.lookup_append, lookup_filter_ne elsewhere, unasked, Option.or_none]

/-- There is nothing at the place, or a file. -/
def Replaceable (t : FileTree) (place : Location) : Prop :=
  ∀ item, t.at? place = some item → ∃ old, item = .file old

theorem Replaceable.at?_ne {item : Item} (replaceable : t.Replaceable place)
    (no_file : ∀ old, item ≠ .file old) : t.at? place ≠ some item := by
  intro found
  obtain ⟨old, rfl⟩ := replaceable _ found
  exact no_file old rfl

theorem Replaceable.at?_put {content : ByteArray} {item : Item} {other : Location}
    (replaceable : t.Replaceable place) (found : t.at? other = some item)
    (no_file : ∀ old, item ≠ .file old) :
    (t.put place (.file content)).at? other = some item := by
  rw [at?_put_of_ne, found]
  rintro rfl
  exact replaceable.at?_ne no_file found

theorem Replaceable.isDirectoryAt_put {content : ByteArray} {other : Location}
    (replaceable : t.Replaceable place) (inside : t.isDirectoryAt other = true) :
    (t.put place (.file content)).isDirectoryAt other = true := by
  rw [isDirectoryAt_iff] at inside ⊢
  exact replaceable.at?_put inside fun _ => Item.noConfusion

theorem Replaceable.looksUp_put {content : ByteArray} (replaceable : t.Replaceable place)
    (looked : t.LooksUp current part) : (t.put place (.file content)).LooksUp current part :=
  ⟨replaceable.isDirectoryAt_put looked.inside, looked.allowed⟩

/-- Every path still leads to where it led before a file was put at a replaceable place. -/
theorem Leads.put {content : ByteArray} {goal : Location} (replaceable : t.Replaceable place)
    (leads : Leads t followLast links current parts goal) :
    Leads (t.put place (.file content)) followLast links current parts goal := by
  induction leads with
  | here => exact .here
  | trivial looked trivial _ ih => exact .trivial (replaceable.looksUp_put looked) trivial ih
  | up looked _ ih => exact .up (replaceable.looksUp_put looked) ih
  | @into links current part rest item goal looked named found solid _ ih =>
    by_cases same : current ++ [part] = place
    · subst same
      have written : (t.put (current ++ [part]) (.file content)).at? (current ++ [part]) =
        some (.file content) := at?_put_self (by simp)
      exact .into (replaceable.looksUp_put looked) named written (by simp) ih
    · rw [← at?_put_of_ne same] at found
      exact .into (replaceable.looksUp_put looked) named found solid ih
  | stop looked named found kept =>
    exact .stop (replaceable.looksUp_put looked) named
      (replaceable.at?_put found fun _ => Item.noConfusion) kept
  | via looked named found followed _ ih =>
    exact .via (replaceable.looksUp_put looked) named
      (replaceable.at?_put found fun _ => Item.noConfusion) followed ih

/-! ## Ways to a place to write -/

/-- The parts of a path end in a name, and those before it lead to the directory the name is for. -/
inductive Designates (t : FileTree) (links : Nat) (current : Location) :
    List String → Location → Prop
  | entry (front : List String) (name : String) {directory : Location} :
      Leads t true links current front directory → t.LooksUp directory name → IsName name →
      Designates t links current (front ++ [name]) (directory ++ [name])

theorem Designates.cons {onward : Nat} {next : Location}
    (step : ∀ front directory, Leads t true onward next front directory →
      Leads t true links current (part :: front) directory)
    (designates : Designates t onward next rest place) :
    Designates t links current (part :: rest) place := by
  obtain ⟨front, name, leads, looked, named⟩ := designates
  exact .entry (part :: front) name (step _ _ leads) looked named

theorem Designates.via {target : String} (looked : t.LooksUp current part)
    (named : IsName part) (found : t.at? (current ++ [part]) = some (.link target))
    (more : rest ≠ []) (designates :
      Designates t links (startOf current target) (Text.split '/' target ++ rest) place) :
    Designates t (links + 1) current (part :: rest) place := by
  obtain ⟨others, last, rfl⟩ : ∃ others last, rest = others ++ [last] :=
    ⟨_, _, (List.dropLast_concat_getLast more).symm⟩
  generalize whole : Text.split '/' target ++ (others ++ [last]) = parts at designates
  obtain ⟨front, name, leads, holds, entry⟩ := designates
  rw [← List.append_assoc] at whole
  obtain ⟨rfl, same⟩ := List.append_inj' whole rfl
  rw [List.singleton_inj] at same
  subst same
  exact .entry (part :: others) last (.via looked named found (.inr rfl) leads) holds entry

/-- What is designated and there is found, unless a last link is to be followed. -/
theorem Designates.leads {item : Item} (designates : Designates t links current parts place)
    (found : t.at? place = some item) (kept : followLast = true → ∀ target, item ≠ .link target) :
    Leads t followLast links current parts place := by
  obtain ⟨front, name, leads, looked, named⟩ := designates
  refine leads.append (fun left => ?_) (List.cons_ne_nil _ _)
  cases item with
  | file content => exact .into looked named found (by simp) .here
  | directory => exact .into looked named found (by simp) .here
  | link target =>
    have unfollowed : ¬followLast = true := fun followed => kept followed target rfl
    exact .stop looked named found (eq_false_of_ne_true unfollowed)

theorem Designates.ne_nil (designates : Designates t links current parts place) : place ≠ [] := by
  obtain ⟨front, name, leads, looked, named⟩ := designates
  simp

theorem Designates.put {content : ByteArray} {other : Location} (replaceable : t.Replaceable other)
    (designates : Designates t links current parts place) :
    Designates (t.put other (.file content)) links current parts place := by
  obtain ⟨front, name, leads, looked, named⟩ := designates
  exact .entry front name (leads.put replaceable) (replaceable.looksUp_put looked) named

/-- No other place can be found by the path. -/
theorem Designates.eq_of_leads {other : Location}
    (designates : Designates t links current parts place)
    (leads : Leads t false links current parts other) : other = place := by
  obtain ⟨front, name, first, _, named⟩ := designates
  obtain ⟨middle, left, again, last⟩ := leads.split (.inl (List.cons_ne_nil _ _))
  obtain rfl := first.unique again
  cases last with
  | trivial _ trivial => simp [named.not_trivial] at trivial
  | up => exact absurd rfl named.not_up
  | into _ _ _ _ ends =>
    cases ends
    rfl
  | stop => rfl
  | via _ _ _ followed => simp at followed

theorem designates_of_followToWrite (h : t.followToWrite links current parts = .ok place) :
    (∃ kept target, Leads t false links current parts kept ∧ t.at? kept = some (.link target)) ∨
      Designates t links current parts place ∧ ∀ target, t.at? place ≠ some (.link target) := by
  fun_induction followToWrite t links current parts with
  | case1 => cases h
  | case2 => cases h
  | case3 => cases h
  | case4 => cases h
  | case5 links current part rest inside allowed _ trivial ih =>
    have looked : t.LooksUp current part := .of_checks inside allowed
    rcases ih h with ⟨kept, target, leads, found⟩ | ⟨designates, solid⟩
    · exact .inl ⟨kept, target, .trivial looked trivial leads, found⟩
    · exact .inr ⟨designates.cons fun _ _ => .trivial looked trivial, solid⟩
  | case6 links current rest inside allowed _ _ ih =>
    have looked : t.LooksUp current ".." := .of_checks inside allowed
    rcases ih h with ⟨kept, target, leads, found⟩ | ⟨designates, solid⟩
    · exact .inl ⟨kept, target, .up looked leads, found⟩
    · exact .inr ⟨designates.cons fun _ _ => .up looked, solid⟩
  | case7 => cases h
  | case8 links current part inside allowed trivial up short next missing _ =>
    obtain rfl : next = place := by simpa using h
    have designates : Designates t links current [part] next :=
      .entry [] part .here (.of_checks inside allowed) (.of_checks trivial up short)
    exact .inr ⟨designates, by simp [missing]⟩
  | case9 => cases h
  | case10 => cases h
  | case11 current part rest inside allowed _ trivial up short next target found links ih =>
    have looked : t.LooksUp current part := .of_checks inside allowed
    have named : IsName part := .of_checks trivial up short
    -- Only here writers and readers part: a link at the end is what the path names.
    by_cases last : rest = []
    · subst last
      exact .inl ⟨next, target, .stop looked named found rfl, found⟩
    · rcases ih h with ⟨kept, other, leads, ends⟩ | ⟨designates, solid⟩
      · exact .inl ⟨kept, other, .via looked named found (.inl last) leads, ends⟩
      · exact .inr ⟨designates.via looked named found last, solid⟩
  | case12 links current part inside allowed trivial up short next item solid found _ =>
    obtain rfl : next = place := by simpa using h
    have designates : Designates t links current [part] next :=
      .entry [] part .here (.of_checks inside allowed) (.of_checks trivial up short)
    refine .inr ⟨designates, fun target link => ?_⟩
    rw [found, Option.some.injEq] at link
    exact solid target link
  | case13 links current part rest inside allowed _ trivial up short next item solid found _ ih =>
    have looked : t.LooksUp current part := .of_checks inside allowed
    have named : IsName part := .of_checks trivial up short
    rcases ih h with ⟨kept, target, leads, ends⟩ | ⟨designates, other⟩
    · exact .inl ⟨kept, target, .into looked named found solid leads, ends⟩
    · exact .inr ⟨designates.cons fun _ _ => .into looked named found solid, other⟩

theorem Designates.followToWrite_eq (designates : Designates t links current parts place)
    (solid : ∀ target, t.at? place ≠ some (.link target)) :
    t.followToWrite links current parts = .ok place := by
  obtain ⟨front, name, leads, looked, named⟩ := designates
  -- A path that ends in a name is not taken for one that can only name a directory.
  have open_end (before : List String) : (before ++ [name]).all (· = "") = false := by
    simp [named.ne_empty]
  induction leads with
  | @here links current =>
    rw [List.nil_append, followToWrite, if_neg looked.not_outside, if_neg looked.not_denied]
    cases found : t.at? (current ++ [name]) with
    | none => simp [named.passes, found]
    | some item =>
      cases item with
      | link target => exact absurd found (solid target)
      | directory => simp [named.passes, found]
      | file content => simp [named.passes, found]
  | trivial passed trivial _ ih =>
    rw [List.cons_append, followToWrite, if_neg passed.not_outside, if_neg passed.not_denied]
    simp [open_end, trivial, ih looked solid]
  | up passed _ ih =>
    have not_trivial : Path.isTrivial ".." = false := by decide
    rw [List.cons_append, followToWrite, if_neg passed.not_outside, if_neg passed.not_denied]
    simp [open_end, not_trivial, ih looked solid]
  | @into links current part rest item directory passed entry found other _ ih =>
    rw [List.cons_append, followToWrite, if_neg passed.not_outside, if_neg passed.not_denied]
    cases item with
    | link target => exact absurd rfl (other target)
    | directory => simp [open_end, entry.passes, found, ih looked solid]
    | file content => simp [open_end, entry.passes, found, ih looked solid]
  | stop _ _ _ kept => cases kept
  | via passed entry found _ _ ih =>
    have onward := ih looked solid
    rw [List.append_assoc] at onward
    rw [List.cons_append, followToWrite, if_neg passed.not_outside, if_neg passed.not_denied]
    simp [open_end, entry.passes, found, onward]

end ClassCoupling.FileTree
