import ClassCoupling.Proofs.Snapshot.Editing
import ClassCoupling.View.Basic
import Mathlib.Data.List.Induction

/-!
# What a stack of views keeps

Each view is judged by what the views kept below it make of the snapshot, so the views that stay are
those that are applied, and leaving out the others from the start gives the same outcome. The names
on a stack stay distinct, in the order in which their views were pushed.
-/

namespace ClassCoupling

open Snapshot

/-- A view fits a snapshot that it is applicable to and does not fail on. -/
def View.Fits (view : View) (t : Tree) (s : Snapshot) : Prop :=
  view.applicable t s = .ok true ∧ ∃ narrowed, view.apply t s = .ok narrowed

namespace ViewStack

variable {t : Tree} {s narrowed : Snapshot} {view : View} {views : List View}

/-! ## Applying the views -/

/-- All the views in order, each given what the one before it makes. -/
def chain (t : Tree) (s : Snapshot) (views : List View) : Except View.Failure Snapshot :=
  views.foldlM (fun s view => view.apply t s) s

theorem attempt_eq_some_iff :
    attempt t s view = some narrowed ↔
      view.applicable t s = .ok true ∧ view.apply t s = .ok narrowed := by
  unfold attempt
  split
  next applicable => cases view.apply t s <;> simp [applicable, Except.toOption]
  next other => simpa using fun applicable => absurd applicable other

theorem attempt_eq_none_iff : attempt t s view = none ↔ ¬ view.Fits t s := by
  rw [Option.eq_none_iff_forall_ne_some]
  simp only [ne_eq, attempt_eq_some_iff, View.Fits, not_and, not_exists]
  exact ⟨fun never applicable narrowed => never narrowed applicable,
    fun never narrowed applicable => never applicable narrowed⟩

theorem applyFrom_cons_of_some (fits : attempt t s view = some narrowed) :
    applyFrom t (view :: views) s =
      (view :: (applyFrom t views narrowed).1, (applyFrom t views narrowed).2) := by
  simp [applyFrom, fits]

theorem applyFrom_cons_of_none (unfit : attempt t s view = none) :
    applyFrom t (view :: views) s = applyFrom t views s := by
  simp [applyFrom, unfit]

theorem applyFrom_append (t : Tree) (below above : List View) (s : Snapshot) :
    applyFrom t (below ++ above) s =
      ((applyFrom t below s).1 ++ (applyFrom t above (applyFrom t below s).2).1,
        (applyFrom t above (applyFrom t below s).2).2) := by
  induction below generalizing s with
  | nil => rfl
  | cons view below ih =>
    cases attempted : attempt t s view with
    | some narrowed =>
      simp [applyFrom_cons_of_some attempted, ih]
    | none =>
      simp [applyFrom_cons_of_none attempted, ih]

theorem applyFrom_sublist (t : Tree) (views : List View) (s : Snapshot) :
    (applyFrom t views s).1.Sublist views := by
  induction views generalizing s with
  | nil => exact .slnil
  | cons view views ih =>
    cases attempted : attempt t s view with
    | some narrowed =>
      rw [applyFrom_cons_of_some attempted]
      exact (ih narrowed).cons_cons view
    | none =>
      rw [applyFrom_cons_of_none attempted]
      exact (ih s).cons view

/-- The views that are kept make the snapshot that is returned. -/
theorem chain_applyFrom (t : Tree) (views : List View) (s : Snapshot) :
    chain t s (applyFrom t views s).1 = .ok (applyFrom t views s).2 := by
  induction views generalizing s with
  | nil => rfl
  | cons view views ih =>
    cases attempted : attempt t s view with
    | some narrowed =>
      rw [applyFrom_cons_of_some attempted]
      have applied := (attempt_eq_some_iff.mp attempted).2
      simp only [chain, List.foldlM_cons, applied]
      exact ih narrowed
    | none =>
      rw [applyFrom_cons_of_none attempted]
      exact ih s

/-- Views that are not kept may as well be left out. -/
theorem applyFrom_of_sublist {fewer : List View} (nodup : views.Nodup)
    (chosen : fewer.Sublist views) (kept : (applyFrom t views s).1.Sublist fewer) :
    applyFrom t fewer s = applyFrom t views s := by
  induction views generalizing s fewer with
  | nil => rw [List.sublist_nil.mp chosen]
  | cons view views ih =>
    obtain ⟨new, nodup⟩ := List.nodup_cons.mp nodup
    cases attempted : attempt t s view with
    | some narrowed =>
      rw [applyFrom_cons_of_some attempted] at kept ⊢
      cases chosen with
      | cons _ chosen => exact absurd (chosen.subset (kept.subset List.mem_cons_self)) new
      | cons_cons _ chosen =>
        rw [applyFrom_cons_of_some attempted, ih nodup chosen (List.cons_sublist_cons.mp kept)]
    | none =>
      rw [applyFrom_cons_of_none attempted] at kept ⊢
      cases chosen with
      | cons _ chosen => exact ih nodup chosen kept
      | @cons_cons fewer _ _ chosen =>
        rw [applyFrom_cons_of_none attempted]
        apply ih nodup chosen
        cases List.sublist_cons_iff.mp kept with
        | inl kept => exact kept
        | inr first =>
          obtain ⟨rest, first, -⟩ := first
          have again : view ∈ (applyFrom t views s).1 := first ▸ List.mem_cons_self
          exact absurd ((applyFrom_sublist t views s).subset again) new

theorem name_mem_of_mem_applyFrom (kept : view ∈ (applyFrom t views s).1) :
    view.name ∈ views.map (·.name) :=
  List.mem_map_of_mem ((applyFrom_sublist t views s).subset kept)

/-- A view stays if it fits what the views kept below it make. -/
theorem mem_applyFrom_iff {below above : List View}
    (nodup : ((below ++ view :: above).map (·.name)).Nodup) :
    ∃ middle, chain t s ((applyFrom t (below ++ view :: above) s).1.filter fun other =>
        other.name ∈ below.map (·.name)) = .ok middle ∧
      (view ∈ (applyFrom t (below ++ view :: above) s).1 ↔ view.Fits t middle) := by
  rw [List.map_append, List.map_cons, List.nodup_append, List.nodup_cons] at nodup
  obtain ⟨-, ⟨not_above, -⟩, apart⟩ := nodup
  have not_below : view.name ∉ below.map (·.name) :=
    fun named => apart _ named _ List.mem_cons_self rfl
  have kept_below : (applyFrom t below s).1.filter (fun other => other.name ∈ below.map (·.name)) =
      (applyFrom t below s).1 :=
    List.filter_eq_self.mpr fun other kept => decide_eq_true (name_mem_of_mem_applyFrom kept)
  have kept_above : ∀ middle, (applyFrom t above middle).1.filter
      (fun other => other.name ∈ below.map (·.name)) = [] := by
    intro middle
    apply List.filter_eq_nil_iff.mpr
    intro other kept
    simp only [decide_eq_true_eq]
    exact fun named =>
      apart _ named _ (List.mem_cons_of_mem _ (name_mem_of_mem_applyFrom kept)) rfl
  refine ⟨(applyFrom t below s).2, ?_⟩
  rw [applyFrom_append]
  cases attempted : attempt t (applyFrom t below s).2 view with
  | some narrowed =>
    have fits := attempt_eq_some_iff.mp attempted
    rw [applyFrom_cons_of_some attempted, List.filter_append,
      List.filter_cons_of_neg (by simpa using not_below), kept_below, kept_above, List.append_nil]
    exact ⟨chain_applyFrom t below s, fun _ => ⟨fits.1, narrowed, fits.2⟩, fun _ => by simp⟩
  | none =>
    have unfit := attempt_eq_none_iff.mp attempted
    rw [applyFrom_cons_of_none attempted, List.filter_append, kept_below, kept_above,
      List.append_nil]
    refine ⟨chain_applyFrom t below s, fun kept => ?_, fun fits => absurd fits unfit⟩
    cases List.mem_append.mp kept with
    | inl kept => exact absurd (name_mem_of_mem_applyFrom kept) not_below
    | inr kept => exact absurd (name_mem_of_mem_applyFrom kept) not_above

/-! ## Runs of operations -/

inductive Operation where
  | push (view : View)
  | remove (name : String)
  | clear
  | apply (t : Tree) (s : Snapshot)

def perform (stack : ViewStack) : Operation → ViewStack
  | .push view => (stack.push view).1
  | .remove name => (stack.remove name).1
  | .clear => empty
  | .apply t s => (stack.apply t s).1

/-- The stack after the operations, from an empty one on. -/
def run (operations : List Operation) : ViewStack := operations.foldl perform empty

theorem run_concat (operations : List Operation) (operation : Operation) :
    run (operations ++ [operation]) = (run operations).perform operation := by
  simp [run]

/-- An operation puts one view of a new name on top, or only takes views away. -/
theorem perform_cases (stack : ViewStack) (operation : Operation) :
    (∃ view, operation = .push view ∧ view.name ∉ stack.names ∧
      (stack.perform operation).views = stack.views ++ [view]) ∨
    (stack.perform operation).views.Sublist stack.views := by
  cases operation with
  | push view =>
    by_cases known : view.name ∈ stack.names
    · exact .inr (by simp [perform, push, known])
    · exact .inl ⟨view, rfl, known, by simp [perform, push, known]⟩
  | remove name => exact .inr List.filter_sublist
  | clear => exact .inr (List.nil_sublist _)
  | apply t s => exact .inr (applyFrom_sublist t stack.views _)

theorem names_nodup_perform {stack : ViewStack} (nodup : stack.names.Nodup)
    (operation : Operation) : (stack.perform operation).names.Nodup := by
  cases stack.perform_cases operation with
  | inl pushed =>
    obtain ⟨view, -, new, views⟩ := pushed
    rw [names, views, List.map_append, List.nodup_append]
    refine ⟨nodup, List.nodup_singleton _, ?_⟩
    intro old known name top same
    rw [same, List.mem_singleton.mp top] at known
    exact new known
  | inr fewer => exact nodup.sublist (fewer.map _)

theorem names_nodup_run (operations : List Operation) : (run operations).names.Nodup := by
  induction operations using List.reverseRecOn with
  | nil => exact .nil
  | append_singleton operations operation ih =>
    rw [run_concat]
    exact names_nodup_perform ih operation

theorem run_push (nodup : (views.map (·.name)).Nodup) : run (views.map .push) = ⟨views⟩ := by
  induction views using List.reverseRecOn with
  | nil => rfl
  | append_singleton views view ih =>
    rw [List.map_append, List.nodup_append] at nodup
    have new : view.name ∉ views.map (·.name) :=
      fun known => nodup.2.2 _ known _ List.mem_cons_self rfl
    rw [List.map_append, List.map_singleton, run_concat, ih nodup.1]
    simp [perform, push, names, new]

/-! ## The order of the names -/

/-- Operation number `k` put the view on the stack, where it has been ever since. -/
structure Stays (operations : List Operation) (k : Nat) (view : View) : Prop where
  pushed : operations[k]? = some (.push view)
  new : view.name ∉ (run (operations.take k)).names
  since : ∀ j, k < j → j ≤ operations.length → view ∈ (run (operations.take j)).views

theorem Stays.lt {operations : List Operation} {k : Nat} (stays : Stays operations k view) :
    k < operations.length :=
  (List.getElem?_eq_some_iff.mp stays.pushed).1

theorem Stays.concat {operations : List Operation} {k : Nat} (stays : Stays operations k view)
    {operation : Operation} (still : view ∈ (run (operations ++ [operation])).views) :
    Stays (operations ++ [operation]) k view where
  pushed := by rw [List.getElem?_append_left stays.lt, stays.pushed]
  new := by
    rw [List.take_append_of_le_length (Nat.le_of_lt stays.lt)]
    exact stays.new
  since j later within := by
    by_cases last : j ≤ operations.length
    · rw [List.take_append_of_le_length last]
      exact stays.since j later last
    · rw [List.take_of_length_le (by simp; omega)]
      exact still

theorem stays_push {operations : List Operation} (new : view.name ∉ (run operations).names) :
    Stays (operations ++ [.push view]) operations.length view where
  pushed := by simp
  new := by simpa using new
  since j later within := by
    rw [List.take_of_length_le (by simp; omega), run_concat]
    simp [perform, push, new]

/-- The views on the stack have been put there one after the other. -/
def InPushOrder (operations : List Operation) : Prop :=
  ∃ history : List (Nat × View), history.map (·.2) = (run operations).views ∧
    history.Pairwise (fun a b => a.1 < b.1) ∧
    ∀ entry ∈ history, Stays operations entry.1 entry.2

theorem inPushOrder_run (operations : List Operation) : InPushOrder operations := by
  induction operations using List.reverseRecOn with
  | nil => exact ⟨[], rfl, .nil, by simp⟩
  | append_singleton operations operation ih =>
    obtain ⟨history, views, increasing, stay⟩ := ih
    cases (run operations).perform_cases operation with
    | inl pushed =>
      obtain ⟨view, rfl, new, grown⟩ := pushed
      rw [← run_concat] at grown
      refine ⟨history ++ [(operations.length, view)], by simp [views, grown], ?_, ?_⟩
      · refine List.pairwise_append.mpr ⟨increasing, List.pairwise_singleton _ _, ?_⟩
        intro earlier listed top last
        rw [List.mem_singleton.mp last]
        exact (stay earlier listed).lt
      · intro entry listed
        cases List.mem_append.mp listed with
        | inl listed =>
          apply (stay entry listed).concat
          rw [grown, ← views]
          exact List.mem_append_left _ (List.mem_map_of_mem listed)
        | inr last =>
          rw [List.mem_singleton.mp last]
          exact stays_push new
    | inr fewer =>
      rw [← run_concat, ← views] at fewer
      obtain ⟨left, chosen, views⟩ := List.sublist_map_iff.mp fewer
      refine ⟨left, views.symm, increasing.sublist chosen, ?_⟩
      intro entry listed
      apply (stay entry (chosen.subset listed)).concat
      rw [views]
      exact List.mem_map_of_mem listed

/-! ## What a stack keeps -/

theorem apply_eq (t : Tree) (s : Snapshot) (stack : ViewStack) :
    stack.apply t s = (⟨(applyFrom t stack.views (s.restrict s.entries)).1⟩,
      (applyFrom t stack.views (s.restrict s.entries)).2) :=
  rfl

/-- A stack applies exactly the views that it keeps, to a copy of the snapshot, and keeps those that
fit what is made by the ones kept below them. Without the others it comes to the same, and a second
time to the same again. Whatever was done to the stack before, its names are distinct and in the
order in which they were pushed. -/
theorem apply_keeps_what_fits (operations : List Operation) :
    (run operations).names.Nodup ∧ InPushOrder operations ∧
    ∀ (t : Tree) (s : Snapshot), ∃ kept last, (run operations).apply t s = (kept, last) ∧
      (∀ origin, Derived origin s → (s.restrict s.entries).IsCopyOf s) ∧
      kept.views.Sublist (run operations).views ∧
      chain t (s.restrict s.entries) kept.views = .ok last ∧
      (∀ below view above, (run operations).views = below ++ view :: above →
        ∃ middle, chain t (s.restrict s.entries)
            (kept.views.filter fun other => other.name ∈ below.map (·.name)) = .ok middle ∧
          (view ∈ kept.views ↔ view.Fits t middle)) ∧
      (∀ fewer, kept.views.Sublist fewer → fewer.Sublist (run operations).views →
        (run (fewer.map .push)).apply t s = (kept, last)) ∧
      kept.apply t s = (kept, last) := by
  have nodup := names_nodup_run operations
  refine ⟨nodup, inPushOrder_run operations, ?_⟩
  intro t s
  have sublist := applyFrom_sublist t (run operations).views (s.restrict s.entries)
  have left_out : ∀ fewer,
      (applyFrom t (run operations).views (s.restrict s.entries)).1.Sublist fewer →
      fewer.Sublist (run operations).views →
      apply t s ⟨fewer⟩ = (run operations).apply t s := by
    intro fewer kept chosen
    rw [apply_eq, apply_eq, applyFrom_of_sublist nodup.of_map chosen kept]
  refine ⟨_, _, apply_eq t s _, fun origin derived => derived.spec.1.restrict_isCopyOf, sublist,
    chain_applyFrom t _ _, ?_, ?_, left_out _ (.refl _) sublist⟩
  · intro below view above split
    dsimp only
    rw [split]
    exact mem_applyFrom_iff (by rw [← split]; exact nodup)
  · intro fewer kept chosen
    rw [run_push (nodup.sublist (chosen.map _))]
    exact left_out fewer kept chosen

/-- The first half of the entries. -/
def half : View where
  name := "half"
  applicable _ _ := .ok true
  apply _ s := .ok (s.restrict (s.entries.take (s.size / 2)))

/-- All of a snapshot with three entries or more. -/
def large : View where
  name := "large"
  applicable _ s := .ok (3 ≤ s.size)
  apply _ s := .ok s

def failing : View where
  name := "failing"
  applicable _ _ := .ok true
  apply _ _ := .error (.problem (.unknownNode "failing"))

def fourInLine : Snapshot :=
  ⟨[⟨1, 0, 1, [2], []⟩, ⟨2, 1, 1, [3], [1]⟩, ⟨3, 2, 1, [4], [2]⟩, ⟨4, 3, 1, [], [3]⟩],
    [(1, 0), (2, 1), (3, 2), (4, 3)], 0, true⟩

/-- The large view is taken out from below the half one and put on top again. -/
def shuffle : List Operation :=
  [.push large, .push half, .push large, .remove "large", .push failing, .push large]

/-- A view that fits the snapshot is dropped because it does not fit what is made of it. -/
theorem apply_keeps_what_fits_shuffle :
    (run shuffle).names = ["half", "failing", "large"] ∧ large.Fits .empty fourInLine ∧
    ∃ kept last, (run shuffle).apply .empty fourInLine = (kept, last) ∧
      kept.names = ["half"] ∧ last.nodeArcs = [(1, 2)] ∧
      chain .empty (fourInLine.restrict fourInLine.entries) kept.views = .ok last ∧
      kept.apply .empty fourInLine = (kept, last) := by
  have names : ((run shuffle).apply .empty fourInLine).1.names = ["half"] := by decide +kernel
  have arcs : ((run shuffle).apply .empty fourInLine).2.nodeArcs = [(1, 2)] := by decide +kernel
  obtain ⟨-, -, applied⟩ := apply_keeps_what_fits shuffle
  obtain ⟨kept, last, outcome, -, -, chained, -, -, again⟩ := applied .empty fourInLine
  rw [outcome] at names arcs
  exact ⟨by decide +kernel, ⟨rfl, _, rfl⟩, kept, last, outcome, names, arcs, chained, again⟩

end ViewStack

end ClassCoupling
