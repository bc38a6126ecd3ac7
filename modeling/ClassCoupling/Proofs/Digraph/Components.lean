import ClassCoupling.Digraph.Components
import Mathlib.Data.List.Nodup
import Mathlib.Logic.Relation
import Mathlib.Tactic.Common

/-!
# The components found are the strongly connected ones

The search keeps one invariant. It has four parts: how vertices are numbered and kept, which
vertices on the stack lead to which, that no arc of an entered vertex is forgotten, and that every
component closed so far is a class of mutually reachable vertices that no arc leaves except to an
earlier one.
-/

namespace ClassCoupling.Digraph

open Relation

variable {n : Nat}

def Arc (g : Digraph n) (u v : Fin n) : Prop := v ∈ g.successors u

abbrev Reaches (g : Digraph n) : Fin n → Fin n → Prop := ReflTransGen g.Arc

namespace Search

/-- The innermost open vertex entered no later than number `k`. -/
def owner (frames : List (Frame n)) (k : Nat) : Option (Frame n) :=
  frames.find? fun frame => frame.number ≤ k

structure Numbered (s : Search n) : Prop where
  stack_sorted : s.stack.Pairwise fun a b => b.2 < a.2
  number_lt : ∀ e ∈ s.stack, e.2 < s.seen.length
  frames_sorted : s.frames.Pairwise fun a b => b.number < a.number
  open_mem : ∀ f ∈ s.frames, (f.vertex, f.number) ∈ s.stack
  seen_nodup : s.seen.Nodup
  seen_perm : s.seen.Perm (s.stack.map (·.1) ++ s.components.flatten)

/-- An open vertex leads to all that was entered after it, and everything on the stack leads back to
an open vertex entered no later. -/
structure Connected (g : Digraph n) (s : Search n) : Prop where
  leads : ∀ f ∈ s.frames, ∀ e ∈ s.stack, f.number ≤ e.2 → g.Reaches f.vertex e.1
  returns : ∀ e ∈ s.stack, ∃ f ∈ s.frames, f.number ≤ e.2 ∧ g.Reaches e.1 f.vertex
  low_le : ∀ f ∈ s.frames, f.low ≤ f.number
  low_reached : ∀ f ∈ s.frames, ∃ e ∈ s.stack, e.2 = f.low ∧ g.Reaches f.vertex e.1
  pending_arc : ∀ f ∈ s.frames, ∀ w ∈ f.pending, g.Arc f.vertex w

/-- Every arc from the stack is still to be looked at, leads to a closed component, or ends on the
stack at or above the low link of the vertex that owns its source. Arcs to `due` are left open. -/
def Accounted (g : Digraph n) (s : Search n) (due : List (Fin n)) : Prop :=
  ∀ e ∈ s.stack, ∀ w, g.Arc e.1 w →
    w ∈ due ∨ (∃ f ∈ s.frames, f.vertex = e.1 ∧ w ∈ f.pending) ∨ w ∈ s.components.flatten ∨
      ∃ m, (w, m) ∈ s.stack ∧ ∀ f, owner s.frames e.2 = some f → f.low ≤ m

structure Closed (g : Digraph n) (components : List (List (Fin n))) : Prop where
  ne_nil : ∀ c ∈ components, c ≠ []
  mem_iff : ∀ c ∈ components, ∀ x ∈ c, ∀ y, y ∈ c ↔ g.Reaches x y ∧ g.Reaches y x
  arc_mem : ∀ x ∈ components.flatten, ∀ y, g.Arc x y → y ∈ components.flatten
  ordered : components.Pairwise fun earlier later => ∀ x ∈ earlier, ∀ y ∈ later, ¬ g.Arc x y

structure Invariant (g : Digraph n) (s : Search n) (due : List (Fin n)) : Prop extends
    Numbered s, Connected g s where
  accounted : Accounted g s due
  closed : Closed g s.components

/-! ## Numbers, the stack and the open vertices -/

variable {g : Digraph n} {s : Search n} {due : List (Fin n)} {f top : Frame n}
  {frames : List (Frame n)} {e : Fin n × Nat} {u v w : Fin n} {k m : Nat}

theorem Numbered.stack_nodup (inv : s.Numbered) : (s.stack.map (·.1)).Nodup :=
  (List.nodup_append.mp (inv.seen_perm.nodup_iff.mp inv.seen_nodup)).1

theorem Numbered.not_mem_closed (inv : s.Numbered) (mem : e ∈ s.stack) :
    e.1 ∉ s.components.flatten := by
  intro closed
  have nodup := inv.seen_perm.nodup_iff.mp inv.seen_nodup
  exact (List.nodup_append.mp nodup).2.2 _ (List.mem_map_of_mem mem) _ closed rfl

theorem Numbered.mem_seen (inv : s.Numbered) :
    u ∈ s.seen ↔ (∃ k, (u, k) ∈ s.stack) ∨ u ∈ s.components.flatten := by
  rw [inv.seen_perm.mem_iff]
  simp

theorem Numbered.number_unique (inv : s.Numbered) (first : (u, k) ∈ s.stack)
    (second : (u, m) ∈ s.stack) : k = m := by
  have same := List.inj_on_of_nodup_map inv.stack_nodup first second rfl
  exact congrArg Prod.snd same

theorem mem_frames_top (innermost : s.frames = top :: frames) : top ∈ s.frames := by
  rw [innermost]
  exact List.mem_cons_self

theorem mem_frames_rest (innermost : s.frames = top :: frames) (mem : f ∈ frames) :
    f ∈ s.frames := by
  rw [innermost]
  exact List.mem_cons_of_mem _ mem

theorem Numbered.number_lt_top (inv : s.Numbered) (innermost : s.frames = top :: frames)
    (mem : f ∈ frames) : f.number < top.number := by
  have sorted := inv.frames_sorted
  rw [innermost] at sorted
  exact (List.pairwise_cons.mp sorted).1 f mem

theorem Numbered.number_le_top (inv : s.Numbered) (innermost : s.frames = top :: frames)
    (mem : f ∈ s.frames) : f.number ≤ top.number := by
  rw [innermost] at mem
  cases mem with
  | head => exact Nat.le_refl _
  | tail _ mem => exact Nat.le_of_lt (inv.number_lt_top innermost mem)

theorem Numbered.top_mem (inv : s.Numbered) (innermost : s.frames = top :: frames) :
    (top.vertex, top.number) ∈ s.stack :=
  inv.open_mem top (mem_frames_top innermost)

theorem mem_of_lookup_eq_some (found : s.stack.lookup u = some k) : (u, k) ∈ s.stack := by
  obtain ⟨before, after, stack_eq, -⟩ := List.lookup_eq_some_iff.mp found
  rw [stack_eq]
  exact List.mem_append_right _ List.mem_cons_self

theorem not_mem_of_lookup_eq_none (found : s.stack.lookup u = none) (k : Nat) :
    (u, k) ∉ s.stack := by
  intro mem
  simpa using List.lookup_eq_none_iff.mp found (u, k) mem

@[simp]
theorem owner_cons (frames : List (Frame n)) :
    owner (top :: frames) k = if top.number ≤ k then some top else owner frames k := by
  by_cases h : top.number ≤ k <;> simp [owner, h]

/-! ## Looking at a successor -/

section Look

variable {after : Frame n} (innermost : s.frames = top :: frames)
  (vertex : after.vertex = top.vertex) (number : after.number = top.number)
  (low_le : after.low ≤ top.low)
include innermost vertex number

theorem Numbered.look (inv : s.Numbered) : Numbered { s with frames := after :: frames } := by
  refine ⟨inv.stack_sorted, inv.number_lt, ?_, ?_, inv.seen_nodup, inv.seen_perm⟩
  · have sorted := inv.frames_sorted
    rw [innermost] at sorted
    rw [List.pairwise_cons] at sorted ⊢
    exact ⟨by rw [number]; exact sorted.1, sorted.2⟩
  · intro f mem
    cases mem with
    | head => rw [vertex, number]; exact inv.top_mem innermost
    | tail _ mem => exact inv.open_mem f (mem_frames_rest innermost mem)

include low_le

theorem Connected.look (inv : Connected g s)
    (low_reached : ∃ e ∈ s.stack, e.2 = after.low ∧ g.Reaches top.vertex e.1)
    (left : ∀ w ∈ after.pending, w ∈ top.pending) :
    Connected g { s with frames := after :: frames } := by
  have top_mem := mem_frames_top innermost
  refine ⟨?_, ?_, ?_, ?_, ?_⟩
  · intro f mem e onStack later
    cases mem with
    | head =>
      rw [number] at later
      rw [vertex]
      exact inv.leads top top_mem e onStack later
    | tail _ mem => exact inv.leads f (mem_frames_rest innermost mem) e onStack later
  · intro e onStack
    obtain ⟨f, mem, earlier, back⟩ := inv.returns e onStack
    rw [innermost] at mem
    cases mem with
    | head => exact ⟨after, List.mem_cons_self, by rwa [number], by rwa [vertex]⟩
    | tail _ mem => exact ⟨f, List.mem_cons_of_mem _ mem, earlier, back⟩
  · intro f mem
    cases mem with
    | head =>
      rw [number]
      exact Nat.le_trans low_le (inv.low_le top top_mem)
    | tail _ mem => exact inv.low_le f (mem_frames_rest innermost mem)
  · intro f mem
    cases mem with
    | head => rw [vertex]; exact low_reached
    | tail _ mem => exact inv.low_reached f (mem_frames_rest innermost mem)
  · intro f mem w waits
    cases mem with
    | head => rw [vertex]; exact inv.pending_arc top top_mem w (left w waits)
    | tail _ mem => exact inv.pending_arc f (mem_frames_rest innermost mem) w waits

theorem Accounted.look (accounted : Accounted g s []) (inv : s.Numbered)
    (looked : ∀ w ∈ top.pending, w ∈ due ∨ w ∈ after.pending ∨ w ∈ s.components.flatten ∨
      ∃ m, (w, m) ∈ s.stack ∧ after.low ≤ m) :
    Accounted g { s with frames := after :: frames } due := by
  intro e onStack w arc
  rcases accounted e onStack w arc with none | ⟨f, mem, source, waits⟩ | done | ⟨m, target, low⟩
  · cases none
  · rw [innermost] at mem
    cases mem with
    | head =>
      rcases looked w waits with isDue | waits | done | ⟨m, target, low⟩
      · exact .inl isDue
      · exact .inr (.inl ⟨after, List.mem_cons_self, vertex.trans source, waits⟩)
      · exact .inr (.inr (.inl done))
      · refine .inr (.inr (.inr ⟨m, target, ?_⟩))
        -- The innermost open vertex owns its own number.
        have same : e.2 = top.number :=
          inv.number_unique onStack (by rw [← source]; exact inv.top_mem innermost)
        intro f owns
        rw [owner_cons, if_pos (by omega)] at owns
        cases owns
        exact low
    | tail _ mem => exact .inr (.inl ⟨f, List.mem_cons_of_mem _ mem, source, waits⟩)
  · exact .inr (.inr (.inl done))
  · refine .inr (.inr (.inr ⟨m, target, ?_⟩))
    intro f owns
    rw [innermost, owner_cons] at low
    rw [owner_cons, number] at owns
    by_cases owned : top.number ≤ e.2
    · rw [if_pos owned] at owns low
      cases owns
      exact Nat.le_trans low_le (low top rfl)
    · rw [if_neg owned] at owns low
      exact low f owns

/-- The innermost open vertex looks at some of its pending successors. -/
theorem Invariant.look (inv : Invariant g s [])
    (low_reached : ∃ e ∈ s.stack, e.2 = after.low ∧ g.Reaches top.vertex e.1)
    (left : ∀ w ∈ after.pending, w ∈ top.pending)
    (looked : ∀ w ∈ top.pending, w ∈ due ∨ w ∈ after.pending ∨ w ∈ s.components.flatten ∨
      ∃ m, (w, m) ∈ s.stack ∧ after.low ≤ m) :
    Invariant g { s with frames := after :: frames } due :=
  ⟨inv.toNumbered.look innermost vertex number,
    inv.toConnected.look innermost vertex number low_le low_reached left,
    inv.accounted.look innermost vertex number low_le inv.toNumbered looked, inv.closed⟩

end Look

/-! ## Entering a vertex -/

theorem Numbered.open_lt (inv : s.Numbered) (mem : f ∈ s.frames) : f.number < s.seen.length :=
  inv.number_lt _ (inv.open_mem f mem)

theorem Numbered.enter (inv : s.Numbered) (new : u ∉ s.seen) : Numbered (s.enter g u) := by
  refine ⟨?_, ?_, ?_, ?_, ?_, ?_⟩
  · exact List.pairwise_cons.mpr ⟨inv.number_lt, inv.stack_sorted⟩
  · intro e mem
    cases mem with
    | head => exact Nat.lt_succ_self _
    | tail _ mem => exact Nat.lt_succ_of_lt (inv.number_lt e mem)
  · exact List.pairwise_cons.mpr ⟨fun f mem => inv.open_lt mem, inv.frames_sorted⟩
  · intro f mem
    cases mem with
    | head => exact List.mem_cons_self
    | tail _ mem => exact List.mem_cons_of_mem _ (inv.open_mem f mem)
  · exact List.nodup_cons.mpr ⟨new, inv.seen_nodup⟩
  · exact inv.seen_perm.cons u

theorem Connected.enter (inv : Connected g s) (numbered : s.Numbered)
    (reached : ∀ f ∈ s.frames, g.Reaches f.vertex u) : Connected g (s.enter g u) := by
  refine ⟨?_, ?_, ?_, ?_, ?_⟩
  · intro f isOpen e mem later
    cases isOpen with
    | head =>
      cases mem with
      | head => exact .refl
      | tail _ mem => exact absurd (numbered.number_lt e mem) (Nat.not_lt.mpr later)
    | tail _ isOpen =>
      cases mem with
      | head => exact reached f isOpen
      | tail _ mem => exact inv.leads f isOpen e mem later
  · intro e mem
    cases mem with
    | head => exact ⟨_, List.mem_cons_self, Nat.le_refl _, .refl⟩
    | tail _ mem =>
      obtain ⟨f, isOpen, earlier, back⟩ := inv.returns e mem
      exact ⟨f, List.mem_cons_of_mem _ isOpen, earlier, back⟩
  · intro f isOpen
    cases isOpen with
    | head => exact Nat.le_refl _
    | tail _ isOpen => exact inv.low_le f isOpen
  · intro f isOpen
    cases isOpen with
    | head => exact ⟨_, List.mem_cons_self, rfl, .refl⟩
    | tail _ isOpen =>
      obtain ⟨e, mem, low, leads⟩ := inv.low_reached f isOpen
      exact ⟨e, List.mem_cons_of_mem _ mem, low, leads⟩
  · intro f isOpen w waits
    cases isOpen with
    | head => exact waits
    | tail _ isOpen => exact inv.pending_arc f isOpen w waits

theorem Accounted.enter (accounted : Accounted g s [u]) (inv : s.Numbered)
    (connected : Connected g s) : Accounted g (s.enter g u) [] := by
  intro e mem w arc
  cases mem with
  | head => exact .inr (.inl ⟨_, List.mem_cons_self, rfl, arc⟩)
  | tail _ mem =>
    have same : owner (s.enter g u).frames e.2 = owner s.frames e.2 := by
      simp only [Search.enter, owner_cons]
      exact if_neg (Nat.not_le.mpr (inv.number_lt e mem))
    rw [same]
    rcases accounted e mem w arc with isDue | ⟨f, isOpen, source, waits⟩ | done | ⟨m, target, low⟩
    · cases List.mem_singleton.mp isDue
      refine .inr (.inr (.inr ⟨_, List.mem_cons_self, ?_⟩))
      intro f owns
      have isOpen := List.mem_of_find?_eq_some owns
      exact Nat.le_of_lt (Nat.lt_of_le_of_lt (connected.low_le f isOpen) (inv.open_lt isOpen))
    · exact .inr (.inl ⟨f, List.mem_cons_of_mem _ isOpen, source, waits⟩)
    · exact .inr (.inr (.inl done))
    · exact .inr (.inr (.inr ⟨m, List.mem_cons_of_mem _ target, low⟩))

/-- A vertex is entered from nowhere, or along the arc that was left open for it. -/
theorem Invariant.enter (inv : Invariant g s [u]) (new : u ∉ s.seen)
    (from_top : ∀ top frames, s.frames = top :: frames → g.Arc top.vertex u) :
    Invariant g (s.enter g u) [] := by
  have reached : ∀ f ∈ s.frames, g.Reaches f.vertex u := by
    intro f mem
    cases frames_eq : s.frames with
    | nil => rw [frames_eq] at mem; cases mem
    | cons top frames =>
      have to_top := inv.leads f mem _ (inv.top_mem frames_eq) (inv.number_le_top frames_eq mem)
      exact to_top.tail (from_top top frames frames_eq)
  exact ⟨inv.toNumbered.enter new, inv.toConnected.enter inv.toNumbered reached,
    inv.accounted.enter inv.toNumbered inv.toConnected, inv.closed⟩

/-! ## Leaving a vertex that is not the last of its component -/

section Leave

variable {outer : Frame n} (innermost : s.frames = top :: outer :: frames)
include innermost

theorem Numbered.leave (inv : s.Numbered) (k : Nat) :
    Numbered { s with frames := lower k (outer :: frames) } := by
  have sorted := inv.frames_sorted
  rw [innermost, List.pairwise_cons] at sorted
  refine ⟨inv.stack_sorted, inv.number_lt, ?_, ?_, inv.seen_nodup, inv.seen_perm⟩
  · exact List.pairwise_cons.mpr (List.pairwise_cons.mp sorted.2)
  · intro f mem
    cases mem with
    | head => exact inv.open_mem outer (mem_frames_rest innermost List.mem_cons_self)
    | tail _ mem =>
      exact inv.open_mem f (mem_frames_rest innermost (List.mem_cons_of_mem _ mem))

theorem Connected.leave (inv : Connected g s) (numbered : s.Numbered)
    (below : top.low < top.number) :
    Connected g { s with frames := lower top.low (outer :: frames) } := by
  have top_mem := mem_frames_top innermost
  have outer_mem : outer ∈ s.frames := mem_frames_rest innermost List.mem_cons_self
  have rest_mem : ∀ f ∈ frames, f ∈ s.frames :=
    fun f mem => mem_frames_rest innermost (List.mem_cons_of_mem _ mem)
  obtain ⟨low, lowMem, low_eq, to_low⟩ := inv.low_reached top top_mem
  refine ⟨?_, ?_, ?_, ?_, ?_⟩
  · intro f mem e onStack later
    cases mem with
    | head => exact inv.leads outer outer_mem e onStack later
    | tail _ mem => exact inv.leads f (rest_mem f mem) e onStack later
  · intro e onStack
    -- What returned to the vertex left goes on to the open vertex below its low link.
    have outside : ∃ f ∈ outer :: frames, f.number ≤ e.2 ∧ g.Reaches e.1 f.vertex := by
      obtain ⟨f, mem, earlier, back⟩ := inv.returns e onStack
      rw [innermost] at mem
      cases mem with
      | tail _ mem => exact ⟨f, mem, earlier, back⟩
      | head =>
        obtain ⟨base, mem, base_le, to_base⟩ := inv.returns low lowMem
        rw [innermost] at mem
        cases mem with
        | head => omega
        | tail _ mem => exact ⟨base, mem, by omega, back.trans (to_low.trans to_base)⟩
    obtain ⟨f, mem, earlier, back⟩ := outside
    cases mem with
    | head => exact ⟨_, List.mem_cons_self, earlier, back⟩
    | tail _ mem => exact ⟨f, List.mem_cons_of_mem _ mem, earlier, back⟩
  · intro f mem
    cases mem with
    | head => exact Nat.le_trans (Nat.min_le_left _ _) (inv.low_le outer outer_mem)
    | tail _ mem => exact inv.low_le f (rest_mem f mem)
  · intro f mem
    cases mem with
    | head =>
      rcases Nat.le_total outer.low top.low with le | le
      · simpa [Nat.min_eq_left le] using inv.low_reached outer outer_mem
      · have outer_lt := numbered.number_lt_top innermost List.mem_cons_self
        have to_top := inv.leads outer outer_mem _ (numbered.top_mem innermost)
          (Nat.le_of_lt outer_lt)
        exact ⟨low, lowMem, by simp [Nat.min_eq_right le, low_eq], to_top.trans to_low⟩
    | tail _ mem => exact inv.low_reached f (rest_mem f mem)
  · intro f mem
    cases mem with
    | head => exact inv.pending_arc outer outer_mem
    | tail _ mem => exact inv.pending_arc f (rest_mem f mem)

theorem Accounted.leave (accounted : Accounted g s []) (inv : s.Numbered)
    (finished : top.pending = []) :
    Accounted g { s with frames := lower top.low (outer :: frames) } [] := by
  have outer_lt := inv.number_lt_top innermost List.mem_cons_self
  intro e onStack w arc
  rcases accounted e onStack w arc with none | ⟨f, mem, source, waits⟩ | done | ⟨m, target, low_le⟩
  · cases none
  · rw [innermost] at mem
    cases mem with
    | head => rw [finished] at waits; cases waits
    | tail _ mem =>
      cases mem with
      | head => exact .inr (.inl ⟨_, List.mem_cons_self, source, waits⟩)
      | tail _ mem => exact .inr (.inl ⟨f, List.mem_cons_of_mem _ mem, source, waits⟩)
  · exact .inr (.inr (.inl done))
  · refine .inr (.inr (.inr ⟨m, target, ?_⟩))
    intro f owns
    simp only [innermost, owner_cons] at low_le
    simp only [lower, owner_cons] at owns
    by_cases later : top.number ≤ e.2
    · -- What the vertex owned passes to the one outside it, together with its low link.
      rw [if_pos later] at low_le
      rw [if_pos (by omega)] at owns
      cases owns
      exact Nat.le_trans (Nat.min_le_right _ _) (low_le top rfl)
    · rw [if_neg later] at low_le
      by_cases owned : outer.number ≤ e.2
      · rw [if_pos owned] at owns low_le
        cases owns
        exact Nat.le_trans (Nat.min_le_left _ _) (low_le outer rfl)
      · rw [if_neg owned] at owns low_le
        exact low_le f owns

end Leave

theorem Invariant.leave (inv : Invariant g s []) (innermost : s.frames = top :: frames)
    (finished : top.pending = []) (below : top.low < top.number) :
    Invariant g { s with frames := lower top.low frames } [] := by
  obtain ⟨low, lowMem, low_eq, -⟩ := inv.low_reached top (mem_frames_top innermost)
  obtain ⟨base, baseMem, base_le, -⟩ := inv.returns low lowMem
  cases frames with
  | nil =>
    rw [innermost] at baseMem
    cases List.mem_singleton.mp baseMem
    omega
  | cons outer frames =>
    exact ⟨inv.toNumbered.leave innermost top.low,
      inv.toConnected.leave innermost inv.toNumbered below,
      inv.accounted.leave innermost inv.toNumbered finished, inv.closed⟩

/-! ## Closing a component -/

/-- The stack divides at number `k` into the vertices `c` and the entries `below`. -/
structure Divides (stack : List (Fin n × Nat)) (k : Nat) (c : List (Fin n))
    (below : List (Fin n × Nat)) : Prop where
  sublist : below.Sublist stack
  perm : (stack.map (·.1)).Perm (c ++ below.map (·.1))
  mem_below : ∀ e, e ∈ below ↔ e ∈ stack ∧ e.2 < k
  mem_class : ∀ x, x ∈ c ↔ ∃ m, (x, m) ∈ stack ∧ k ≤ m

theorem Numbered.close_eq (inv : s.Numbered) (mem : (v, k) ∈ s.stack) :
    ∃ c below, Divides s.stack k c below ∧
      s.close v = { s with stack := below, components := s.components ++ [c] } := by
  obtain ⟨above, below, stack_eq⟩ := List.append_of_mem mem
  have sorted := inv.stack_sorted
  rw [stack_eq, List.pairwise_append, List.pairwise_cons] at sorted
  obtain ⟨-, ⟨below_lt, -⟩, above_gt⟩ := sorted
  have fresh : ∀ e ∈ above, e.1 ≠ v := by
    intro e above_mem same
    have nodup := inv.stack_nodup
    rw [stack_eq, List.map_append, List.nodup_append] at nodup
    exact nodup.2.2 e.1 (List.mem_map_of_mem above_mem) v (by simp) same
  have taken : s.stack.takeWhile (fun e => e.1 ≠ v) = above := by
    rw [stack_eq, List.takeWhile_append_of_pos (by simpa using fresh)]
    simp
  refine ⟨above.map (·.1) ++ [v], below, ⟨?_, ?_, ?_, ?_⟩, ?_⟩
  · rw [stack_eq]
    exact (List.sublist_cons_self _ below).trans (List.sublist_append_right above _)
  · simp [stack_eq]
  · intro e
    rw [stack_eq]
    constructor
    · intro mem
      exact ⟨by simp [mem], below_lt e mem⟩
    · rintro ⟨mem, lt⟩
      rcases List.mem_append.mp mem with mem | mem
      · have := above_gt e mem _ List.mem_cons_self
        omega
      · cases mem with
        | head => omega
        | tail _ mem => exact mem
  · intro x
    rw [stack_eq]
    constructor
    · intro mem
      rcases List.mem_append.mp mem with named | mem
      · obtain ⟨e, above_mem, rfl⟩ := List.mem_map.mp named
        exact ⟨e.2, List.mem_append_left _ above_mem,
          Nat.le_of_lt (above_gt e above_mem _ List.mem_cons_self)⟩
      · rw [List.mem_singleton.mp mem]
        exact ⟨k, by simp, Nat.le_refl _⟩
    · rintro ⟨m, mem, le⟩
      rcases List.mem_append.mp mem with mem | mem
      · exact List.mem_append_left _ (List.mem_map_of_mem mem)
      · cases mem with
        | head => simp
        | tail _ mem =>
          have := below_lt _ mem
          omega
  · simp only [close, taken]
    simp [stack_eq]

theorem Closed.reaches_mem {components : List (List (Fin n))} (closed : Closed g components)
    (mem : u ∈ components.flatten) (reaches : g.Reaches u v) : v ∈ components.flatten := by
  induction reaches with
  | refl => exact mem
  | tail _ arc ih => exact closed.arc_mem _ ih _ arc

/-- A class of mutually reachable vertices may follow the components its arcs lead to. -/
theorem Closed.append {components : List (List (Fin n))} {c : List (Fin n)}
    (closed : Closed g components) (ne_nil : c ≠ [])
    (both : ∀ x ∈ c, ∀ y ∈ c, g.Reaches x y) (fresh : ∀ x ∈ c, x ∉ components.flatten)
    (arcs : ∀ x ∈ c, ∀ y, g.Arc x y → y ∈ c ∨ y ∈ components.flatten) :
    Closed g (components ++ [c]) := by
  have stays : ∀ x ∈ c, ∀ y, g.Reaches x y → y ∈ c ∨ y ∈ components.flatten := by
    intro x mem y reaches
    induction reaches with
    | refl => exact .inl mem
    | tail _ arc ih =>
      rcases ih with inside | earlier
      · exact arcs _ inside _ arc
      · exact .inr (closed.arc_mem _ earlier _ arc)
  refine ⟨?_, ?_, ?_, ?_⟩
  · intro d mem
    rcases List.mem_append.mp mem with mem | mem
    · exact closed.ne_nil d mem
    · rw [List.mem_singleton.mp mem]
      exact ne_nil
  · intro d mem x x_mem y
    rcases List.mem_append.mp mem with mem | mem
    · exact closed.mem_iff d mem x x_mem y
    · cases List.mem_singleton.mp mem
      constructor
      · intro y_mem
        exact ⟨both x x_mem y y_mem, both y y_mem x x_mem⟩
      · rintro ⟨there, back⟩
        rcases stays x x_mem y there with inside | earlier
        · exact inside
        · exact absurd (closed.reaches_mem earlier back) (fresh x x_mem)
  · intro x mem y arc
    simp only [List.flatten_append, List.flatten_singleton, List.mem_append] at mem ⊢
    rcases mem with mem | mem
    · exact .inl (closed.arc_mem x mem y arc)
    · exact (arcs x mem y arc).symm
  · refine List.pairwise_append.mpr ⟨closed.ordered, List.pairwise_singleton _ _, ?_⟩
    intro earlier mem d d_mem x x_mem y y_mem arc
    cases List.mem_singleton.mp d_mem
    exact fresh y y_mem (closed.arc_mem x (List.mem_flatten.mpr ⟨earlier, mem, x_mem⟩) y arc)

/-- What was entered after the innermost open vertex leads back to it. -/
theorem Invariant.reaches_top (inv : Invariant g s due) (innermost : s.frames = top :: frames)
    (mem : e ∈ s.stack) : g.Reaches e.1 top.vertex := by
  obtain ⟨f, isOpen, _, back⟩ := inv.returns e mem
  exact back.trans
    (inv.leads f isOpen _ (inv.top_mem innermost) (inv.number_le_top innermost isOpen))

/-- No arc goes below the innermost open vertex when it is finished with its low link its number. -/
theorem Invariant.arc_above (inv : Invariant g s []) (innermost : s.frames = top :: frames)
    (finished : top.pending = []) (root : top.low = top.number) (mem : e ∈ s.stack)
    (above : top.number ≤ e.2) (arc : g.Arc e.1 w) :
    (∃ m, (w, m) ∈ s.stack ∧ top.number ≤ m) ∨ w ∈ s.components.flatten := by
  rcases inv.accounted e mem w arc with none | ⟨f, isOpen, source, waits⟩ | done | ⟨m, target, low⟩
  · cases none
  · have number : f.number = e.2 :=
      inv.number_unique (inv.open_mem f isOpen) (by rw [source]; exact mem)
    rw [innermost] at isOpen
    cases isOpen with
    | head => rw [finished] at waits; cases waits
    | tail _ isOpen =>
      have := inv.number_lt_top innermost isOpen
      omega
  · exact .inr done
  · rw [innermost, owner_cons, if_pos above] at low
    exact .inl ⟨m, target, root ▸ low top rfl⟩

theorem lower_eq_self (bound : ∀ f ∈ frames, f.low ≤ k) : lower k frames = frames := by
  cases frames with
  | nil => rfl
  | cons f frames => simp [lower, Nat.min_eq_left (bound f List.mem_cons_self)]

section Close

variable {c : List (Fin n)} {below : List (Fin n × Nat)} (innermost : s.frames = top :: frames)
  (cut : Divides s.stack top.number c below)
include innermost cut

theorem Numbered.close (inv : s.Numbered) :
    Numbered { s with
      stack := below, frames := frames, components := s.components ++ [c] } := by
  have sorted := inv.frames_sorted
  rw [innermost] at sorted
  refine ⟨inv.stack_sorted.sublist cut.sublist, ?_, (List.pairwise_cons.mp sorted).2, ?_,
    inv.seen_nodup, ?_⟩
  · intro e mem
    exact inv.number_lt e (cut.sublist.subset mem)
  · intro f mem
    exact (cut.mem_below _).mpr ⟨inv.open_mem f (mem_frames_rest innermost mem),
      inv.number_lt_top innermost mem⟩
  · refine inv.seen_perm.trans ((cut.perm.append_right _).trans ?_)
    rw [List.flatten_append, List.flatten_singleton, List.append_assoc, ← List.append_assoc _ _ c]
    exact List.perm_append_comm

theorem Connected.close (inv : Connected g s) (numbered : s.Numbered) :
    Connected g { s with
      stack := below, frames := frames, components := s.components ++ [c] } := by
  have rest_mem : ∀ f ∈ frames, f ∈ s.frames := fun f mem => mem_frames_rest innermost mem
  refine ⟨?_, ?_, ?_, ?_, ?_⟩
  · intro f mem e onStack
    exact inv.leads f (rest_mem f mem) e (cut.sublist.subset onStack)
  · intro e onStack
    obtain ⟨onStack, lt⟩ := (cut.mem_below e).mp onStack
    obtain ⟨f, mem, earlier, back⟩ := inv.returns e onStack
    rw [innermost] at mem
    cases mem with
    | head => omega
    | tail _ mem => exact ⟨f, mem, earlier, back⟩
  · intro f mem
    exact inv.low_le f (rest_mem f mem)
  · intro f mem
    obtain ⟨e, onStack, low, leads⟩ := inv.low_reached f (rest_mem f mem)
    have := inv.low_le f (rest_mem f mem)
    have := numbered.number_lt_top innermost mem
    exact ⟨e, (cut.mem_below e).mpr ⟨onStack, by omega⟩, low, leads⟩
  · intro f mem
    exact inv.pending_arc f (rest_mem f mem)

theorem Accounted.close (accounted : Accounted g s []) (finished : top.pending = []) :
    Accounted g { s with
      stack := below, frames := frames, components := s.components ++ [c] } [] := by
  intro e onStack w arc
  obtain ⟨onStack, lt⟩ := (cut.mem_below e).mp onStack
  simp only [List.flatten_append, List.flatten_singleton, List.mem_append]
  rcases accounted e onStack w arc with none | ⟨f, mem, source, waits⟩ | done | ⟨m, target, low⟩
  · cases none
  · rw [innermost] at mem
    cases mem with
    | head => rw [finished] at waits; cases waits
    | tail _ mem => exact .inr (.inl ⟨f, mem, source, waits⟩)
  · exact .inr (.inr (.inl (.inl done)))
  · rcases Nat.lt_or_ge m top.number with m_lt | m_ge
    · refine .inr (.inr (.inr ⟨m, (cut.mem_below _).mpr ⟨target, m_lt⟩, ?_⟩))
      rw [innermost, owner_cons, if_neg (by omega)] at low
      exact low
    · exact .inr (.inr (.inl (.inr ((cut.mem_class w).mpr ⟨m, target, m_ge⟩))))

end Close

theorem Invariant.close (inv : Invariant g s []) (innermost : s.frames = top :: frames)
    (finished : top.pending = []) (root : top.low = top.number) :
    Invariant g (Search.close top.vertex { s with frames := lower top.low frames }) [] := by
  have handed : lower top.low frames = frames := by
    apply lower_eq_self
    intro f mem
    have := inv.low_le f (mem_frames_rest innermost mem)
    have := inv.number_lt_top innermost mem
    omega
  obtain ⟨c, below, cut, close_eq⟩ := inv.close_eq (inv.top_mem innermost)
  have closed_eq : Search.close top.vertex { s with frames := lower top.low frames } =
      { s.close top.vertex with frames := frames } := by rw [handed]; rfl
  rw [closed_eq, close_eq]
  refine ⟨inv.toNumbered.close innermost cut, inv.toConnected.close innermost cut inv.toNumbered,
    inv.accounted.close innermost cut finished, ?_⟩
  have top_class : top.vertex ∈ c :=
    (cut.mem_class _).mpr ⟨_, inv.top_mem innermost, Nat.le_refl _⟩
  apply inv.closed.append (List.ne_nil_of_mem top_class)
  · intro x x_mem y y_mem
    obtain ⟨k, x_stack, -⟩ := (cut.mem_class x).mp x_mem
    obtain ⟨m, y_stack, y_above⟩ := (cut.mem_class y).mp y_mem
    exact (inv.reaches_top innermost x_stack).trans
      (inv.leads top (mem_frames_top innermost) _ y_stack y_above)
  · intro x x_mem
    obtain ⟨k, x_stack, -⟩ := (cut.mem_class x).mp x_mem
    exact inv.not_mem_closed x_stack
  · intro x x_mem y arc
    obtain ⟨k, x_stack, x_above⟩ := (cut.mem_class x).mp x_mem
    rw [cut.mem_class]
    exact inv.arc_above innermost finished root x_stack x_above arc

/-! ## Whole searches -/

theorem Invariant.step (inv : Invariant g s []) : Invariant g (s.step g) [] := by
  match innermost : s.frames with
  | [] => simpa only [Search.step, innermost] using inv
  | ⟨v, number, low, u :: pending⟩ :: frames =>
    have top_mem : ⟨v, number, low, u :: pending⟩ ∈ s.frames := by
      rw [innermost]
      exact List.mem_cons_self
    have arc : g.Arc v u := inv.pending_arc _ top_mem u List.mem_cons_self
    have low_reached := inv.low_reached _ top_mem
    have left : ∀ w ∈ pending, w ∈ u :: pending := fun w waits => List.mem_cons_of_mem _ waits
    simp only [Search.step, innermost]
    split
    next new =>
      have handed : Invariant g { s with frames := ⟨v, number, low, pending⟩ :: frames } [u] := by
        refine inv.look innermost rfl rfl (Nat.le_refl _) low_reached left ?_
        intro w waits
        cases waits with
        | head => exact .inl List.mem_cons_self
        | tail _ waits => exact .inr (.inl waits)
      refine handed.enter (by simpa using new) ?_
      intro top frames frames_eq
      cases frames_eq
      exact arc
    next old =>
      have seen : u ∈ s.seen := by simpa using old
      cases found : s.stack.lookup u with
      | some seenAt =>
        have onStack : (u, seenAt) ∈ s.stack := mem_of_lookup_eq_some found
        refine inv.look innermost rfl rfl (Nat.min_le_left _ _) ?_ left ?_
        · rcases Nat.le_total low seenAt with le | le
          · simpa only [Nat.min_eq_left le] using low_reached
          · exact ⟨_, onStack, (Nat.min_eq_right le).symm, .single arc⟩
        · intro w waits
          cases waits with
          | head => exact .inr (.inr (.inr ⟨seenAt, onStack, Nat.min_le_right _ _⟩))
          | tail _ waits => exact .inr (.inl waits)
      | none =>
        have done : u ∈ s.components.flatten := by
          rcases inv.mem_seen.mp seen with ⟨k, onStack⟩ | done
          · exact absurd onStack (not_mem_of_lookup_eq_none found k)
          · exact done
        refine inv.look innermost rfl rfl (Nat.le_refl _) low_reached left ?_
        intro w waits
        cases waits with
        | head => exact .inr (.inr (.inl done))
        | tail _ waits => exact .inr (.inl waits)
  | ⟨v, number, low, []⟩ :: frames =>
    simp only [Search.step, innermost]
    split
    next root => exact inv.close innermost rfl root
    next other =>
      have low_le := inv.low_le ⟨v, number, low, []⟩ (by rw [innermost]; exact List.mem_cons_self)
      exact inv.leave innermost rfl (Nat.lt_of_le_of_ne low_le other)

theorem mem_seen_step (mem : u ∈ s.seen) : u ∈ (s.step g).seen := by
  unfold Search.step
  split
  · exact mem
  · split
    · exact List.mem_cons_of_mem _ mem
    · split <;> exact mem
  · dsimp only
    split <;> exact mem

theorem Invariant.run (inv : Invariant g s []) :
    Invariant g (s.run g) [] ∧ (s.run g).frames = [] ∧ ∀ u ∈ s.seen, u ∈ (s.run g).seen := by
  fun_induction Search.run g s with
  | case1 s finished => exact ⟨inv, finished, fun u mem => mem⟩
  | case2 s busy ih =>
    obtain ⟨after, finished, seen⟩ := ih inv.step
    exact ⟨after, finished, fun u mem => seen u (mem_seen_step mem)⟩

theorem Invariant.visit (inv : Invariant g s []) (idle : s.frames = []) (v : Fin n) :
    Invariant g (s.visit g v) [] ∧ (s.visit g v).frames = [] ∧
      ∀ u, u = v ∨ u ∈ s.seen → u ∈ (s.visit g v).seen := by
  unfold Search.visit
  split
  next old =>
    refine ⟨inv, idle, ?_⟩
    rintro u (rfl | mem)
    · simpa using old
    · exact mem
  next new =>
    have due : Invariant g s [v] :=
      ⟨inv.toNumbered, inv.toConnected, fun e mem w arc => by
        rcases inv.accounted e mem w arc with none | rest
        · cases none
        · exact .inr rest, inv.closed⟩
    have entered : Invariant g (s.enter g v) [] := by
      refine due.enter (by simpa using new) ?_
      intro top frames frames_eq
      rw [idle] at frames_eq
      cases frames_eq
    obtain ⟨after, finished, seen⟩ := entered.run
    refine ⟨after, finished, ?_⟩
    rintro u (rfl | mem)
    · exact seen u List.mem_cons_self
    · exact seen u (List.mem_cons_of_mem _ mem)

theorem Invariant.visitAll (inv : Invariant g s []) (idle : s.frames = []) (vs : List (Fin n)) :
    Invariant g (vs.foldl (Search.visit g) s) [] ∧ (vs.foldl (Search.visit g) s).frames = [] ∧
      ∀ u, u ∈ vs ∨ u ∈ s.seen → u ∈ (vs.foldl (Search.visit g) s).seen := by
  induction vs generalizing s with
  | nil =>
    refine ⟨inv, idle, ?_⟩
    rintro u (none | mem)
    · cases none
    · exact mem
  | cons v vs ih =>
    obtain ⟨visited, finished, seen⟩ := inv.visit idle v
    obtain ⟨after, finished, seenAll⟩ := ih visited finished
    refine ⟨after, finished, ?_⟩
    intro u mem
    rw [List.mem_cons, or_assoc] at mem
    rcases mem with first | later | mem
    · exact seenAll u (.inr (seen u (.inl first)))
    · exact seenAll u (.inl later)
    · exact seenAll u (.inr (seen u (.inr mem)))

theorem invariant_empty (g : Digraph n) : Invariant g {} [] where
  stack_sorted := .nil
  number_lt := by rintro e ⟨⟩
  frames_sorted := .nil
  open_mem := by rintro f ⟨⟩
  seen_nodup := .nil
  seen_perm := .nil
  leads := by rintro f ⟨⟩
  returns := by rintro e ⟨⟩
  low_le := by rintro f ⟨⟩
  low_reached := by rintro f ⟨⟩
  pending_arc := by rintro f ⟨⟩
  accounted := by rintro e ⟨⟩
  closed := ⟨by rintro c ⟨⟩, by rintro c ⟨⟩, by rintro x ⟨⟩, .nil⟩

end Search

open Search

/-! ## The components -/

theorem components_spec (g : Digraph n) :
    Closed g g.components ∧ g.components.flatten.Nodup ∧ ∀ v, v ∈ g.components.flatten := by
  obtain ⟨inv, finished, seen⟩ := (invariant_empty g).visitAll rfl (List.finRange n)
  -- Everything on the stack returns to an open vertex, and none is left.
  have empty : ((List.finRange n).foldl (Search.visit g) {}).stack = [] := by
    apply List.eq_nil_iff_forall_not_mem.mpr
    intro e mem
    obtain ⟨f, isOpen, -⟩ := inv.returns e mem
    rw [finished] at isOpen
    cases isOpen
  have perm := inv.seen_perm
  rw [empty] at perm
  refine ⟨inv.closed, perm.nodup_iff.mp inv.seen_nodup, ?_⟩
  intro v
  exact perm.mem_iff.mp (seen v (.inl (List.mem_finRange v)))

variable {g : Digraph n} {c : List (Fin n)} {u v : Fin n}

theorem mem_component_iff (mem : c ∈ g.components) (inside : u ∈ c) :
    v ∈ c ↔ g.Reaches u v ∧ g.Reaches v u :=
  (components_spec g).1.mem_iff c mem u inside v

theorem isCycle_iff (mem : c ∈ g.components) (inside : v ∈ c) :
    g.isCycle c = true ↔ TransGen g.Arc v v := by
  match c with
  | [] => cases inside
  | [w] =>
    cases List.mem_singleton.mp inside
    simp only [isCycle, List.contains_iff_mem]
    constructor
    · intro loop
      exact .single loop
    · intro walk
      obtain ⟨next, arc, back⟩ := TransGen.head'_iff.mp walk
      have same := (mem_component_iff mem inside).mpr ⟨.single arc, back⟩
      cases List.mem_singleton.mp same
      exact arc
  | first :: second :: rest =>
    have nodup := (List.nodup_flatten.mp (components_spec g).2.1).1 _ mem
    have other : ∃ w ∈ first :: second :: rest, w ≠ v := by
      by_cases same : first = v
      · refine ⟨second, by simp, ?_⟩
        rintro rfl
        simp [same] at nodup
      · exact ⟨first, by simp, same⟩
    obtain ⟨w, w_mem, ne⟩ := other
    obtain ⟨there, back⟩ := (mem_component_iff mem inside).mp w_mem
    have walk : TransGen g.Arc v v := by
      rcases reflTransGen_iff_eq_or_transGen.mp there with same | there
      · exact absurd same ne
      · exact there.trans_left back
    simp [isCycle, walk]

/-! ## The component of a vertex -/

theorem eq_of_mem_components {j k : Nat} {d : List (Fin n)} (first : g.components[j]? = some c)
    (second : g.components[k]? = some d) (inFirst : v ∈ c) (inSecond : v ∈ d) : j = k := by
  have disjoint := (List.nodup_flatten.mp (components_spec g).2.1).2
  obtain ⟨j_lt, rfl⟩ := List.getElem?_eq_some_iff.mp first
  obtain ⟨k_lt, rfl⟩ := List.getElem?_eq_some_iff.mp second
  rcases Nat.lt_trichotomy j k with before | same | after
  · exact absurd inSecond (List.pairwise_iff_getElem.mp disjoint j k j_lt k_lt before inFirst)
  · exact same
  · exact absurd inFirst (List.pairwise_iff_getElem.mp disjoint k j k_lt j_lt after inSecond)

theorem get_set (table : Vector Nat n) (position : Nat) (u v : Fin n) :
    (table.set u.val position u.isLt).get v = if v = u then position else table.get v := by
  have read : (table.set u.val position u.isLt)[v.val] =
      if u.val = v.val then position else table[v.val] := Vector.getElem_set u.isLt v.isLt
  simp only [eq_comm (a := u.val), ← Fin.ext_iff] at read
  exact read

theorem get_mark (table : Vector Nat n) (component : List (Fin n)) (position : Nat)
    (v : Fin n) :
    (v ∈ component → (mark table component position).get v = position) ∧
      (v ∉ component → (mark table component position).get v = table.get v) := by
  induction component generalizing table with
  | nil => exact ⟨fun inside => absurd inside List.not_mem_nil, fun _ => rfl⟩
  | cons w component ih =>
    obtain ⟨marked, kept⟩ := ih (table.set w.val position w.isLt)
    rw [get_set] at kept
    constructor
    · intro inside
      by_cases later : v ∈ component
      · exact marked later
      · obtain rfl := (List.mem_cons.mp inside).resolve_right later
        exact (kept later).trans (if_pos rfl)
    · intro outside
      rw [List.mem_cons, not_or] at outside
      exact (kept outside.2).trans (if_neg outside.1)

/-- A vertex bears the position of a component that holds it, if one does. -/
theorem get_foldl_mark (entries : List (List (Fin n) × Nat)) (table : Vector Nat n)
    (v : Fin n) :
    let filled := entries.foldl (fun table entry => mark table entry.1 entry.2) table
    (filled.get v = table.get v ∧ ∀ entry ∈ entries, v ∉ entry.1) ∨
      ∃ entry ∈ entries, v ∈ entry.1 ∧ filled.get v = entry.2 := by
  induction entries generalizing table with
  | nil => exact .inl ⟨rfl, fun entry mem => absurd mem List.not_mem_nil⟩
  | cons first entries ih =>
    rcases ih (mark table first.1 first.2) with ⟨same, absent⟩ | ⟨entry, mem, inside, marked⟩
    · obtain ⟨marked, kept⟩ := get_mark table first.1 first.2 v
      by_cases inside : v ∈ first.1
      · exact .inr ⟨first, List.mem_cons_self, inside, same.trans (marked inside)⟩
      · exact .inl ⟨same.trans (kept inside), List.forall_mem_cons.mpr ⟨inside, absent⟩⟩
    · exact .inr ⟨entry, List.mem_cons_of_mem _ mem, inside, marked⟩

theorem exists_component_at (g : Digraph n) (v : Fin n) :
    ∃ c, g.components[(componentTable g.components).get v]? = some c ∧ v ∈ c := by
  rcases get_foldl_mark g.components.zipIdx (.replicate n 0) v with
    ⟨-, absent⟩ | ⟨entry, mem, inside, marked⟩
  · obtain ⟨c, listed, inside⟩ := List.mem_flatten.mp ((components_spec g).2.2 v)
    obtain ⟨k, place⟩ := List.mem_iff_getElem?.mp listed
    exact absurd inside (absent (c, k) (List.mk_mem_zipIdx_iff_getElem?.mpr place))
  · refine ⟨entry.1, ?_, inside⟩
    rw [componentTable, marked]
    exact List.mem_zipIdx_iff_getElem?.mp mem

theorem componentTable_lt (g : Digraph n) (v : Fin n) :
    (componentTable g.components).get v < g.components.length := by
  obtain ⟨c, place, -⟩ := exists_component_at g v
  exact (List.getElem?_eq_some_iff.mp place).1

/-- Filling the table finds what a search for the component of each vertex finds. -/
theorem componentTable_eq_findIdx (g : Digraph n) (v : Fin n) :
    (componentTable g.components).get v = g.components.findIdx (·.contains v) := by
  obtain ⟨c, place, inside⟩ := exists_component_at g v
  have lt : g.components.findIdx (·.contains v) < g.components.length :=
    List.findIdx_lt_length_of_exists
      ⟨c, List.mem_of_getElem? place, List.contains_iff_mem.mpr inside⟩
  have found : (g.components[g.components.findIdx (·.contains v)]).contains v = true :=
    List.findIdx_getElem (p := fun c : List (Fin n) => c.contains v)
  exact eq_of_mem_components place (List.getElem?_eq_getElem lt) inside
    (List.contains_iff_mem.mp found)

theorem componentTable_eq_iff {k : Nat} (here : g.components[k]? = some c) :
    (componentTable g.components).get v = k ↔ v ∈ c := by
  obtain ⟨d, place, found⟩ := exists_component_at g v
  constructor
  · intro same
    rw [same, here, Option.some.injEq] at place
    exact place ▸ found
  · intro inside
    exact eq_of_mem_components place here found inside

theorem componentTable_eq_iff_reaches :
    (componentTable g.components).get u = (componentTable g.components).get v ↔
      g.Reaches u v ∧ g.Reaches v u := by
  obtain ⟨c, place, inside⟩ := exists_component_at g v
  rw [componentTable_eq_iff place, mem_component_iff (List.mem_of_getElem? place) inside, and_comm]

theorem componentTable_le_of_arc (arc : g.Arc u v) :
    (componentTable g.components).get v ≤ (componentTable g.components).get u := by
  obtain ⟨c, placeU, insideU⟩ := exists_component_at g u
  obtain ⟨d, placeV, insideV⟩ := exists_component_at g v
  obtain ⟨u_lt, rfl⟩ := List.getElem?_eq_some_iff.mp placeU
  obtain ⟨v_lt, rfl⟩ := List.getElem?_eq_some_iff.mp placeV
  by_contra later
  have ordered := List.pairwise_iff_getElem.mp (components_spec g).1.ordered _ _ u_lt v_lt
    (Nat.lt_of_not_le later)
  exact ordered u insideU v insideV arc

theorem componentTable_le_of_reaches (reaches : g.Reaches u v) :
    (componentTable g.components).get v ≤ (componentTable g.components).get u := by
  induction reaches with
  | refl => exact Nat.le_refl _
  | tail _ arc ih => exact Nat.le_trans (componentTable_le_of_arc arc) ih

theorem exists_isCycle_iff :
    (∃ c ∈ g.components, g.isCycle c = true) ↔ ∃ v, TransGen g.Arc v v := by
  constructor
  · intro cyclic
    obtain ⟨c, mem, cyclic⟩ := cyclic
    obtain ⟨v, inside⟩ := List.exists_mem_of_ne_nil c ((components_spec g).1.ne_nil c mem)
    exact ⟨v, (isCycle_iff mem inside).mp cyclic⟩
  · intro walk
    obtain ⟨v, walk⟩ := walk
    obtain ⟨c, mem, inside⟩ := List.mem_flatten.mp ((components_spec g).2.2 v)
    exact ⟨c, mem, (isCycle_iff mem inside).mpr walk⟩

end ClassCoupling.Digraph
