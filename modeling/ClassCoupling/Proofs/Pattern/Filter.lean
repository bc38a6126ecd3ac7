import ClassCoupling.Pattern.Filter
import ClassCoupling.Proofs.Pattern.Spelling

/-!
# What a filter remembers

A query marks the first pattern of its list that spells the text, so the marks after a run of queries
tell which patterns were first for some text. One that stands behind another which spells the same
texts is never marked.
-/

namespace ClassCoupling

namespace Pattern

variable {patterns texts : List String} {text : String} {place : Nat}

/-! ## The first pattern to spell a text -/

/-- The pattern at this place spells the text, and none before it does. -/
def FirstToSpell (patterns : List String) (place : Nat) (text : String) : Prop :=
  (∃ pattern, patterns[place]? = some pattern ∧ Spells pattern.toList text.toList) ∧
    ∀ pattern ∈ patterns.take place, ¬ Spells pattern.toList text.toList

theorem firstToSpell_iff : FirstToSpell patterns place text ↔
    patterns.findIdx? (fun pattern => (compile pattern).accepts text) = some place := by
  have spelled : ∀ pattern : String,
      (compile pattern).accepts text = true ↔ Spells pattern.toList text.toList :=
    fun pattern => accepts_compile_iff pattern.toList text.toList
  simp only [List.findIdx?_eq_some_iff_getElem, FirstToSpell, spelled, List.getElem?_eq_some_iff,
    List.mem_take_iff_getElem]
  constructor
  · intro first
    obtain ⟨⟨_, ⟨here, rfl⟩, spells⟩, others⟩ := first
    exact ⟨here, spells, fun j before => others _ ⟨j, by omega, rfl⟩⟩
  · intro first
    obtain ⟨here, spells, others⟩ := first
    refine ⟨⟨_, ⟨here, rfl⟩, spells⟩, ?_⟩
    intro pattern mem
    obtain ⟨j, before, rfl⟩ := mem
    exact others j (by omega)

instance : Decidable (FirstToSpell patterns place text) :=
  decidable_of_iff _ firstToSpell_iff.symm

/-- The patterns that are the first to spell none of the texts, in order. -/
def neverFirst (patterns texts : List String) : List String :=
  (patterns.zipIdx.filter fun pattern =>
    ∀ text ∈ texts, ¬ FirstToSpell patterns pattern.2 text).map (·.1)

/-! ## Marks -/

theorem query_eq (text : String) (patterns : List Pattern) :
    (query text patterns).2 = patterns.mapIdx fun place p =>
      if patterns.findIdx? (·.accepts text) = some place then { p with matched := true } else p := by
  induction patterns with
  | nil => rfl
  | cons p patterns ih =>
    rw [List.mapIdx_cons, query, List.findIdx?_cons]
    by_cases first : p.accepts text = true
    · have kept : (patterns.mapIdx fun _ q => q) = patterns :=
        List.mapIdx_eq_iff.mpr fun _ => Option.map_id_apply.symm
      simp [first, kept]
    · simp [first, ih]

/-- The patterns, each with a mark if it was the first to spell one of the texts. -/
def marked (patterns texts : List String) : List Pattern :=
  patterns.mapIdx fun place pattern =>
    { compile pattern with matched := ∃ text ∈ texts, FirstToSpell patterns place text }

theorem marked_nil : marked patterns [] = patterns.map compile := by
  rw [marked, List.mapIdx_eq_iff]
  intro place
  simp only [List.getElem?_map, List.not_mem_nil, false_and, exists_false, decide_false]
  rfl

/-- Marks do not change what is accepted. -/
theorem findIdx?_marked : (marked patterns texts).findIdx? (·.accepts text) = some place ↔
    FirstToSpell patterns place text := by
  simp [firstToSpell_iff, List.findIdx?_eq_some_iff_getElem, marked, accepts, compile]

theorem query_marked :
    (query text (marked patterns texts)).2 = marked patterns (texts ++ [text]) := by
  rw [query_eq]
  simp only [findIdx?_marked]
  rw [marked, List.mapIdx_mapIdx, marked, List.mapIdx_eq_mapIdx_iff]
  intro place bound
  by_cases first : FirstToSpell patterns place text <;> simp [first]

theorem unmatched_marked :
    ((marked patterns texts).filter fun p => !p.matched).map (·.text) =
      neverFirst patterns texts := by
  have unmarked : ∀ pattern : String × Nat,
      (!decide (∃ text ∈ texts, FirstToSpell patterns pattern.2 text)) =
        decide (∀ text ∈ texts, ¬ FirstToSpell patterns pattern.2 text) := by
    intro pattern
    simp only [← decide_not, not_exists, not_and]
  rw [marked, List.mapIdx_eq_zipIdx_map, List.filter_map, List.map_map, neverFirst]
  simp only [Function.comp_def, unmarked, compile]

theorem neverFirst_sublist (patterns texts more : List String) :
    (neverFirst patterns (texts ++ more)).Sublist (neverFirst patterns texts) := by
  apply List.Sublist.map
  apply List.monotone_filter_right
  intro pattern
  simp only [decide_eq_true_eq]
  intro never text asked
  exact never text (List.mem_append_left more asked)

/-! ## Lists from outside -/

theorem eq_of_compileList {role : Role} {compiled : List Pattern}
    (accepted : compileList role patterns = .ok compiled) : compiled = patterns.map compile := by
  unfold compileList at accepted
  split at accepted
  next => cases accepted
  next =>
    split at accepted
    next => cases accepted
    next =>
      cases accepted
      rfl

end Pattern

namespace UnitFilter

open Pattern

variable {units sources focus : List String} {filter : UnitFilter}

theorem eq_of_make (made : make units sources focus = .ok filter) :
    filter = ⟨units.map compile, sources.map compile, focus.map compile⟩ := by
  unfold make at made
  cases ofUnits : compileList .ignoredUnit units with
  | error => simp [ofUnits, bind, Except.bind] at made
  | ok compiled =>
    cases ofSources : compileList .ignoredSource sources with
    | error => simp [ofUnits, ofSources, bind, Except.bind] at made
    | ok others =>
      cases ofFocus : compileList .focus focus with
      | error => simp [ofUnits, ofSources, ofFocus, bind, Except.bind] at made
      | ok more =>
        simp only [ofUnits, ofSources, ofFocus, bind, Except.bind, pure, Except.pure,
          Except.ok.injEq] at made
        rw [← made, eq_of_compileList ofUnits, eq_of_compileList ofSources,
          eq_of_compileList ofFocus]

/-! ## Runs of queries -/

/-- A text for the patterns of one of the lists. -/
structure Query where
  role : Role
  text : String
  deriving DecidableEq, Repr

/-- The text that the patterns get to see. -/
def Query.compared (query : Query) : String :=
  match query.role with
  | .ignoredSource => Text.replace '\\' '/' query.text
  | .ignoredUnit | .focus => query.text

def ask (filter : UnitFilter) (query : Query) : Bool × UnitFilter :=
  match query.role with
  | .ignoredUnit => filter.queryUnit query.text
  | .ignoredSource => filter.querySource query.text
  | .focus => filter.queryFocus query.text

def after (filter : UnitFilter) (queries : List Query) : UnitFilter :=
  queries.foldl (fun filter query => (filter.ask query).2) filter

def textsFor (role : Role) (queries : List Query) : List String :=
  (queries.filter fun query => query.role = role).map (·.compared)

theorem textsFor_append (role : Role) (queries more : List Query) :
    textsFor role (queries ++ more) = textsFor role queries ++ textsFor role more := by
  simp [textsFor]

theorem textsFor_without_focus {role : Role} (other : role ≠ .focus) (queries : List Query) :
    textsFor role (queries.filter fun query => query.role ≠ .focus) = textsFor role queries := by
  rw [textsFor, List.filter_filter, textsFor]
  congr 1
  apply List.filter_congr
  intro query _
  by_cases own : query.role = role
  · simp [own, other]
  · simp [own]

/-- The filter of three lists with the marks that the queries leave. -/
def remembering (units sources focus : List String) (queries : List Query) : UnitFilter where
  ignoredUnits := marked units (textsFor .ignoredUnit queries)
  ignoredSources := marked sources (textsFor .ignoredSource queries)
  focus := marked focus (textsFor .focus queries)

theorem ask_remembering (queries : List Query) (query : Query) :
    ((remembering units sources focus queries).ask query).2 =
      remembering units sources focus (queries ++ [query]) := by
  obtain ⟨role, text⟩ := query
  cases role with
  | ignoredUnit =>
    simp [ask, queryUnit, remembering, query_marked, textsFor, Query.compared]
  | ignoredSource =>
    simp [ask, querySource, remembering, query_marked, textsFor, Query.compared, normalizeLocation]
  | focus =>
    simp [ask, queryFocus, remembering, query_marked, textsFor, Query.compared]

theorem after_remembering (queries more : List Query) :
    (remembering units sources focus queries).after more =
      remembering units sources focus (queries ++ more) := by
  induction more generalizing queries with
  | nil => rw [List.append_nil, after, List.foldl_nil]
  | cons query more ih =>
    have rest := ih (queries ++ [query])
    rw [List.append_assoc] at rest
    rw [after, List.foldl_cons, ask_remembering]
    exact rest

theorem after_eq (made : make units sources focus = .ok filter) (queries : List Query) :
    filter.after queries = remembering units sources focus queries := by
  have start : filter = remembering units sources focus [] := by
    rw [eq_of_make made, ← marked_nil, ← marked_nil, ← marked_nil]
    rfl
  rw [start, after_remembering, List.nil_append]

theorem unmatched_remembering (queries : List Query) :
    (remembering units sources focus queries).unmatched =
      neverFirst units (textsFor .ignoredUnit queries) ++
        neverFirst sources (textsFor .ignoredSource queries) := by
  rw [unmatched, List.filter_append, List.map_append, ← unmatched_marked, ← unmatched_marked]
  rfl

/-- What is left unmatched are the patterns that were first for no text of their list, those for
units before those for inputs. Queries for the focus leave it alone, and any others only take from
it. -/
theorem unmatched_were_never_first (made : make units sources focus = .ok filter)
    (queries : List Query) :
    (filter.after queries).unmatched =
      neverFirst units (textsFor .ignoredUnit queries) ++
        neverFirst sources (textsFor .ignoredSource queries) ∧
    (filter.after (queries.filter fun query => query.role ≠ .focus)).unmatched =
      (filter.after queries).unmatched ∧
    ∀ more, (filter.after (queries ++ more)).unmatched.Sublist
      (filter.after queries).unmatched := by
  simp only [after_eq made, unmatched_remembering]
  refine ⟨trivial, ?_, ?_⟩
  · rw [textsFor_without_focus (by decide), textsFor_without_focus (by decide)]
  · intro more
    rw [textsFor_append, textsFor_append]
    exact (neverFirst_sublist _ _ _).append (neverFirst_sublist _ _ _)

/-- The second unit pattern stands behind one that spells more, the last behind its like. -/
def shadowed : UnitFilter where
  ignoredUnits := ["java*", "javax", "com", "com"].map compile
  ignoredSources := ["lib/x", "zip"].map compile
  focus := ["javax"].map compile

def visits : List Query :=
  [⟨.ignoredUnit, "javax"⟩, ⟨.ignoredUnit, "com"⟩, ⟨.focus, "javax"⟩, ⟨.ignoredSource, "lib\\x"⟩]

theorem unmatched_were_never_first_shadowed :
    make ["java*", "javax", "com", "com"] ["lib/x", "zip"] ["javax"] = .ok shadowed ∧
    (shadowed.after visits).unmatched = ["javax", "com", "zip"] ∧
    (shadowed.after (visits.filter fun query => query.role ≠ .focus)).unmatched =
      ["javax", "com", "zip"] ∧
    (shadowed.after (visits ++ [⟨.ignoredSource, "zip"⟩])).unmatched.Sublist
      ["javax", "com", "zip"] := by
  have made : make ["java*", "javax", "com", "com"] ["lib/x", "zip"] ["javax"] = .ok shadowed := by
    decide +kernel
  have left : neverFirst ["java*", "javax", "com", "com"] (textsFor .ignoredUnit visits) ++
      neverFirst ["lib/x", "zip"] (textsFor .ignoredSource visits) = ["javax", "com", "zip"] := by
    with_unfolding_all rfl
  obtain ⟨listed, without, shrinks⟩ := unmatched_were_never_first made visits
  rw [left] at listed
  rw [listed] at without shrinks
  exact ⟨made, listed, without, shrinks _⟩

end UnitFilter

end ClassCoupling
