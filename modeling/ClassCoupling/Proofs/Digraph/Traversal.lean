import ClassCoupling.Digraph.Traversal
import ClassCoupling.Proofs.Digraph.Components
import ClassCoupling.Proofs.Snapshot.Consistent
import Mathlib.Order.Lattice.Nat

/-!
# What the traversals list

Both traversals list exactly the vertices that can be reached, each once. The one level after level
never comes nearer to the start again. The one that goes down first gives the list of the recursive
search, its stack being the calls that are still to be made.
-/

namespace ClassCoupling

open Relation

/-! ## Walks and distances -/

section Distance

universe u
variable {α : Type u} {r : α → α → Prop} {a b c : α} {k : Nat}

/-- A walk of `k` steps. -/
inductive Walk (r : α → α → Prop) (a : α) : Nat → α → Prop where
  | refl : Walk r a 0 a
  | tail {k : Nat} {b c : α} : Walk r a k b → r b c → Walk r a (k + 1) c

/-- The length of a shortest walk, if there is a walk at all. -/
noncomputable def distance (r : α → α → Prop) (a b : α) : Nat := sInf { k | Walk r a k b }

theorem exists_walk (reached : ReflTransGen r a b) : ∃ k, Walk r a k b := by
  induction reached with
  | refl => exact ⟨0, .refl⟩
  | tail _ step ih =>
    obtain ⟨k, walk⟩ := ih
    exact ⟨k + 1, walk.tail step⟩

theorem Walk.distance_le (walk : Walk r a k b) : distance r a b ≤ k := Nat.sInf_le walk

theorem walk_distance (reached : ReflTransGen r a b) : Walk r a (distance r a b) b :=
  Nat.sInf_mem (exists_walk reached)

theorem distance_le_succ (reached : ReflTransGen r a b) (step : r b c) :
    distance r a c ≤ distance r a b + 1 :=
  ((walk_distance reached).tail step).distance_le

end Distance

namespace Digraph

variable {n : Nat} {g : Digraph n} {start u v : Fin n}

/-! ## What a search has visited and what waits -/

/-- A search from `start` knows only what can be reached, and has noted where the arcs of the
visited vertices end. -/
structure Explores (g : Digraph n) (start : Fin n) (visited waiting : List (Fin n)) : Prop where
  start_mem : start ∈ visited ++ waiting
  reached : ∀ v ∈ visited ++ waiting, g.Reaches start v
  noted : ∀ u ∈ visited, ∀ v, g.Arc u v → v ∈ visited ++ waiting

namespace Explores

variable {visited waiting visited' waiting' : List (Fin n)}

/-- One more vertex is visited, and what its arcs lead to is noted. -/
theorem visit (inv : Explores g start visited waiting) (known : v ∈ visited ++ waiting)
    (kept : visited ++ waiting ⊆ visited' ++ waiting')
    (visits : ∀ u ∈ visited', u ∈ visited ∨ u = v)
    (added : ∀ u ∈ visited' ++ waiting', u ∈ visited ++ waiting ∨ g.Arc v u)
    (arcs : ∀ u, g.Arc v u → u ∈ visited' ++ waiting') : Explores g start visited' waiting' where
  start_mem := kept inv.start_mem
  reached u mem := by
    rcases added u mem with old | arc
    · exact inv.reached u old
    · exact (inv.reached v known).tail arc
  noted u mem w arc := by
    rcases visits u mem with old | rfl
    · exact kept (inv.noted u old w arc)
    · exact arcs w arc

/-- When nothing waits any more, everything that can be reached was visited. -/
theorem mem_visited_iff (inv : Explores g start visited []) :
    v ∈ visited ↔ g.Reaches start v := by
  have known : ∀ w, w ∈ visited ↔ w ∈ visited ++ [] := by simp
  constructor
  · intro mem
    exact inv.reached v ((known v).mp mem)
  · intro reaches
    induction reaches with
    | refl => exact (known start).mpr inv.start_mem
    | tail _ arc ih => exact (known _).mpr (inv.noted _ ih _ arc)

end Explores

/-! ## Level after level -/

theorem mem_fresh {seen : List (Fin n)} :
    u ∈ ((g.successors v).filter fun u => !seen.contains u).eraseDups ↔ g.Arc v u ∧ u ∉ seen := by
  simp [List.mem_eraseDups, Arc]

/-- What is listed and queued stands in the order of the distances, and those of the queue differ by
at most one. -/
structure Levels (g : Digraph n) (start : Fin n) (listed queue : List (Fin n)) : Prop extends
    Explores g start listed queue where
  nodup : (listed ++ queue).Nodup
  ordered : (listed ++ queue).Pairwise fun u v =>
    distance g.Arc start u ≤ distance g.Arc start v
  narrow : ∀ u ∈ queue, ∀ v ∈ queue, distance g.Arc start u ≤ distance g.Arc start v + 1

namespace Levels

variable {listed queue fresh : List (Fin n)} {k : Nat}

theorem head_le (inv : Levels g start listed (v :: queue)) (mem : u ∈ queue) :
    distance g.Arc start v ≤ distance g.Arc start u :=
  (List.pairwise_cons.mp (List.pairwise_append.mp inv.ordered).2.1).1 u mem

/-- A walk to a vertex that is not known yet passes through the queue, so it is longer than the way
to the first of the queue. -/
theorem distance_lt (inv : Levels g start listed (v :: queue)) (walk : Walk g.Arc start k u) :
    u ∈ listed ++ v :: queue ∨ distance g.Arc start v < k := by
  induction walk with
  | refl => exact .inl inv.start_mem
  | @tail k b c walk arc ih =>
    rcases ih with known | lt
    · -- An arc leaves what is known only from the queue, where nothing is nearer than its first.
      rcases List.mem_append.mp known with visited | queued
      · exact .inl (inv.noted b visited c arc)
      · have le : distance g.Arc start v ≤ distance g.Arc start b := by
          cases queued with
          | head => exact Nat.le_refl _
          | tail _ queued => exact inv.head_le queued
        exact .inr (Nat.lt_succ_of_le (Nat.le_trans le walk.distance_le))
    · exact .inr (Nat.lt_succ_of_lt lt)

theorem distance_fresh (inv : Levels g start listed (v :: queue)) (arc : g.Arc v u)
    (new : u ∉ listed ++ v :: queue) : distance g.Arc start u = distance g.Arc start v + 1 := by
  have reached : g.Reaches start v := inv.reached v (by simp)
  have le := distance_le_succ reached arc
  rcases inv.distance_lt (walk_distance (reached.tail arc)) with known | lt
  · exact absurd known new
  · omega

theorem le_head_succ (inv : Levels g start listed (v :: queue)) (known : u ∈ listed ++ v :: queue) :
    distance g.Arc start u ≤ distance g.Arc start v + 1 := by
  rcases List.mem_append.mp known with visited | queued
  · have le := (List.pairwise_append.mp inv.ordered).2.2 u visited v List.mem_cons_self
    exact Nat.le_succ_of_le le
  · exact inv.narrow u queued v List.mem_cons_self

/-- The first of the queue is listed, and what is new one step behind it joins the queue. -/
theorem step (inv : Levels g start listed (v :: queue)) (nodup : fresh.Nodup)
    (fresh_iff : ∀ u, u ∈ fresh ↔ g.Arc v u ∧ u ∉ listed ++ v :: queue) :
    Levels g start (listed ++ [v]) (queue ++ fresh) := by
  have regroup : (listed ++ [v]) ++ (queue ++ fresh) = (listed ++ v :: queue) ++ fresh := by simp
  have level : ∀ u ∈ fresh, distance g.Arc start u = distance g.Arc start v + 1 := by
    intro u mem
    obtain ⟨arc, new⟩ := (fresh_iff u).mp mem
    exact inv.distance_fresh arc new
  refine { toExplores := ?_, nodup := ?_, ordered := ?_, narrow := ?_ }
  · apply inv.toExplores.visit (v := v) (by simp)
    · rw [regroup]
      exact List.subset_append_left _ _
    · simp
    · intro u mem
      rw [regroup, List.mem_append, fresh_iff] at mem
      exact mem.imp_right And.left
    · intro u arc
      rw [regroup, List.mem_append, fresh_iff]
      by_cases known : u ∈ listed ++ v :: queue
      · exact .inl known
      · exact .inr ⟨arc, known⟩
  · rw [regroup, List.nodup_append]
    refine ⟨inv.nodup, nodup, ?_⟩
    rintro a known b mem rfl
    exact ((fresh_iff a).mp mem).2 known
  · rw [regroup, List.pairwise_append]
    refine ⟨inv.ordered, ?_, ?_⟩
    · apply List.pairwise_of_forall_mem_list
      intro a first b second
      rw [level a first, level b second]
    · intro a known b mem
      rw [level b mem]
      exact inv.le_head_succ known
  · -- Every distance in the new queue is that of `v` or one more.
    intro a first b second
    have near : distance g.Arc start a ≤ distance g.Arc start v + 1 := by
      rcases List.mem_append.mp first with queued | mem
      · exact inv.le_head_succ (by simp [queued])
      · exact Nat.le_of_eq (level a mem)
    have far : distance g.Arc start v ≤ distance g.Arc start b := by
      rcases List.mem_append.mp second with queued | mem
      · exact inv.head_le queued
      · rw [level b mem]
        exact Nat.le_succ _
    exact Nat.le_trans near (Nat.succ_le_succ far)

theorem run {seen : List (Fin n)} (inv : Levels g start listed queue)
    (known : seen = listed ++ queue) :
    Levels g start (listed ++ g.breadthFirstFrom seen queue) [] := by
  fun_induction breadthFirstFrom g seen queue generalizing listed with
  | case1 seen => simpa using inv
  | case2 seen v queue fresh =>
    rename_i ih
    subst known
    have next := ih (inv.step (nodup_eraseDups _) fun u => mem_fresh) (by simp)
    simpa using next

end Levels

theorem breadthFirst_levels (g : Digraph n) (start : Fin n) :
    Levels g start (g.breadthFirst start) [] := by
  have initial : Levels g start [] [start] :=
    { start_mem := List.mem_singleton_self start
      reached := by
        intro v mem
        rw [List.mem_singleton.mp mem]
      noted := by rintro u ⟨⟩
      nodup := List.nodup_singleton start
      ordered := List.pairwise_singleton _ start
      narrow := by
        intro u first v second
        rw [List.mem_singleton.mp first, List.mem_singleton.mp second]
        exact Nat.le_succ _ }
  exact initial.run rfl

theorem mem_breadthFirst : v ∈ g.breadthFirst start ↔ g.Reaches start v :=
  (breadthFirst_levels g start).mem_visited_iff

theorem breadthFirst_nodup (g : Digraph n) (start : Fin n) : (g.breadthFirst start).Nodup := by
  simpa using (breadthFirst_levels g start).nodup

theorem head?_breadthFirst (g : Digraph n) (start : Fin n) :
    (g.breadthFirst start).head? = some start := by
  rw [breadthFirst, breadthFirstFrom]
  rfl

theorem breadthFirst_ordered (g : Digraph n) (start : Fin n) :
    (g.breadthFirst start).Pairwise fun u v =>
      distance g.Arc start u ≤ distance g.Arc start v := by
  simpa using (breadthFirst_levels g start).ordered

/-! ## The recursive search -/

/-- Visits the vertices of a list in turn: one that was not seen before is put on record, and then
its successors are visited. -/
def visitAll (g : Digraph n) (seen : List (Fin n)) :
    List (Fin n) → { after : List (Fin n) // seen ⊆ after }
  | [] => ⟨seen, List.Subset.refl seen⟩
  | v :: more =>
    if v ∈ seen then g.visitAll seen more
    else
      let below := g.visitAll (seen ++ [v]) (g.successors v)
      let after := g.visitAll below more
      ⟨after, fun _ mem => after.2 (below.2 (List.mem_append_left _ mem))⟩
termination_by pending => (unseen seen, pending.length)
decreasing_by
  · exact Prod.Lex.right _ (Nat.lt_succ_self _)
  · exact Prod.Lex.left _ _
      (unseen_lt (fun _ mem => List.mem_append_left _ mem) ‹_› (by simp))
  · exact Prod.Lex.left _ _
      (unseen_lt (fun _ mem => below.2 (List.mem_append_left _ mem)) ‹_› (below.2 (by simp)))

/-- The recursive search from one vertex. -/
def visit (g : Digraph n) (seen : List (Fin n)) (v : Fin n) : List (Fin n) :=
  (g.visitAll seen [v]).1

section Visit

variable {seen more : List (Fin n)}

@[simp] theorem visitAll_nil : (g.visitAll seen []).1 = seen := by
  rw [visitAll]

theorem visitAll_cons_of_mem (known : v ∈ seen) :
    (g.visitAll seen (v :: more)).1 = (g.visitAll seen more).1 := by
  rw [visitAll, if_pos known]

theorem visitAll_cons_of_not_mem (new : v ∉ seen) :
    (g.visitAll seen (v :: more)).1 =
      (g.visitAll (g.visitAll (seen ++ [v]) (g.successors v)).1 more).1 := by
  rw [visitAll, if_neg new]

theorem visitAll_eq_foldl (vs : List (Fin n)) : (g.visitAll seen vs).1 = vs.foldl g.visit seen := by
  induction vs generalizing seen with
  | nil => simp
  | cons v vs ih =>
    rw [List.foldl_cons, ← ih, visit]
    by_cases known : v ∈ seen
    · rw [visitAll_cons_of_mem known, visitAll_cons_of_mem known, visitAll_nil]
    · rw [visitAll_cons_of_not_mem known, visitAll_cons_of_not_mem known, visitAll_nil]

theorem visit_eq (g : Digraph n) (seen : List (Fin n)) (v : Fin n) :
    g.visit seen v =
      if v ∈ seen then seen else (g.successors v).foldl g.visit (seen ++ [v]) := by
  rw [visit, ← visitAll_eq_foldl]
  split
  next known => rw [visitAll_cons_of_mem known, visitAll_nil]
  next new => rw [visitAll_cons_of_not_mem new, visitAll_nil]

end Visit

/-! ## Going down before going on -/

/-- The lists on the stack are the calls of the recursive search that are still to be made. -/
theorem depthFirstFrom_eq_foldl (g : Digraph n) (seen : List (Fin n))
    (stack : List (List (Fin n))) :
    g.depthFirstFrom seen stack = stack.foldl (fun seen vs => (g.visitAll seen vs).1) seen := by
  fun_induction depthFirstFrom g seen stack with
  | case1 seen => rfl
  | case2 seen stack ih => rw [ih, List.foldl_cons, visitAll_nil]
  | case3 seen v more stack known ih =>
    have mem : v ∈ seen := by simpa using known
    rw [ih, List.foldl_cons, List.foldl_cons, visitAll_cons_of_mem mem]
  | case4 seen v more stack new ih =>
    have fresh : v ∉ seen := by simpa using new
    rw [ih, List.foldl_cons, List.foldl_cons, List.foldl_cons, visitAll_cons_of_not_mem fresh]

theorem depthFirst_eq_visit (g : Digraph n) (start : Fin n) :
    g.depthFirst start = g.visit [] start := by
  rw [depthFirst, depthFirstFrom_eq_foldl, visit, visitAll_cons_of_not_mem List.not_mem_nil,
    visitAll_nil]
  rfl

theorem Explores.depthFirstFrom {seen : List (Fin n)} {stack : List (List (Fin n))}
    (inv : Explores g start seen stack.flatten) (nodup : seen.Nodup) :
    Explores g start (g.depthFirstFrom seen stack) [] ∧ (g.depthFirstFrom seen stack).Nodup := by
  fun_induction Digraph.depthFirstFrom g seen stack with
  | case1 seen => exact ⟨inv, nodup⟩
  | case2 seen stack ih => exact ih inv nodup
  | case3 seen v more stack known ih =>
    have mem : v ∈ seen := by simpa using known
    have same : ∀ u, u ∈ seen ++ (more :: stack).flatten ↔
        u ∈ seen ++ ((v :: more) :: stack).flatten := by
      grind
    refine ih ?_ nodup
    apply inv.visit (v := v) (List.mem_append_left _ mem)
    · exact fun u known => (same u).mpr known
    · exact fun u visited => .inl visited
    · exact fun u known => .inl ((same u).mp known)
    · exact fun u arc => (same u).mpr (inv.noted v mem u arc)
  | case4 seen v more stack new ih =>
    have fresh : v ∉ seen := by simpa using new
    have grown : ∀ u, u ∈ (seen ++ [v]) ++ (g.successors v :: more :: stack).flatten ↔
        u ∈ seen ++ ((v :: more) :: stack).flatten ∨ g.Arc v u := by
      grind [Arc]
    refine ih ?_ ?_
    · apply inv.visit (v := v) (by simp)
      · exact fun u known => (grown u).mpr (.inl known)
      · simp
      · exact fun u known => (grown u).mp known
      · exact fun u arc => (grown u).mpr (.inr arc)
    · refine List.nodup_append.mpr ⟨nodup, List.nodup_singleton v, ?_⟩
      rintro a visited b last rfl
      exact fresh (List.mem_singleton.mp last ▸ visited)

theorem depthFirst_explores (g : Digraph n) (start : Fin n) :
    Explores g start (g.depthFirst start) [] ∧ (g.depthFirst start).Nodup := by
  apply Explores.depthFirstFrom
  · refine ⟨by simp, ?_, ?_⟩
    · intro v mem
      simp only [List.flatten_singleton, List.singleton_append, List.mem_cons] at mem
      rcases mem with rfl | arc
      · exact .refl
      · exact .single arc
    · intro u mem v arc
      rw [List.mem_singleton.mp mem] at arc
      simpa using .inr arc
  · exact List.nodup_singleton start

/-- Both traversals list the same vertices. -/
theorem depthFirst_perm_breadthFirst (g : Digraph n) (start : Fin n) :
    (g.depthFirst start).Perm (g.breadthFirst start) := by
  obtain ⟨explores, nodup⟩ := depthFirst_explores g start
  apply (List.perm_ext_iff_of_nodup nodup (breadthFirst_nodup g start)).mpr
  intro v
  rw [explores.mem_visited_iff, mem_breadthFirst]

end Digraph

end ClassCoupling
