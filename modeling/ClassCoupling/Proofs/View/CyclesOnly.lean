import ClassCoupling.Proofs.Snapshot.Editing

/-!
# What the view of the cycles keeps

An arc stays in view if it lies on a closed walk of arcs that no rule excuses, and a node if it is
an end of such an arc. It does not matter whether the excused arcs are dropped before the components
are found or between the two searches, and a second look at the result drops nothing more.
-/

namespace ClassCoupling

open Relation

section ClosedWalks

universe u
variable {α : Type u} {r : α → α → Prop} {a b : α}

theorem returning_returning : Returning (Returning r) a b ↔ Returning r a b := by
  rw [Returning, reflTransGen_returning_iff]
  constructor
  · intro cut
    exact cut.1
  · intro arc
    exact ⟨arc, arc.2, .single arc.1⟩

/-- The elements on closed walks are the ends of the arcs on closed walks. -/
theorem transGen_self_iff : TransGen r a a ↔ ∃ b c, Returning r b c ∧ (a = b ∨ a = c) := by
  rw [TransGen.head'_iff]
  constructor
  · intro walk
    obtain ⟨c, arc⟩ := walk
    exact ⟨a, c, arc, .inl rfl⟩
  · intro ends
    obtain ⟨b, c, arc, rfl | rfl⟩ := ends
    · exact ⟨c, arc⟩
    · exact TransGen.head'_iff.mp (.tail' arc.2 arc.1)

end ClosedWalks

namespace Snapshot

variable {s s' : Snapshot} {r : NodeId → NodeId → Prop} {t : Tree} {x : NodeId}

/-! ## Snapshots made of arcs -/

/-- The arcs of `r` and nothing but their ends. -/
structure Spans (s : Snapshot) (r : NodeId → NodeId → Prop) : Prop where
  arc_iff : ∀ u v, s.Arc u v ↔ r u v
  mem_nodes_iff : ∀ x, x ∈ s.nodes ↔ ∃ u v, r u v ∧ (x = u ∨ x = v)

/-- The same nodes and the same arcs, in whatever order. -/
structure SameSets (s s' : Snapshot) : Prop where
  mem_nodes_iff : ∀ x, x ∈ s.nodes ↔ x ∈ s'.nodes
  arc_iff : ∀ u v, s.Arc u v ↔ s'.Arc u v

theorem Spans.sameSets (spans : s.Spans r) (spans' : s'.Spans r) : s.SameSets s' where
  mem_nodes_iff x := (spans.mem_nodes_iff x).trans (spans'.mem_nodes_iff x).symm
  arc_iff u v := (spans.arc_iff u v).trans (spans'.arc_iff u v).symm

theorem Indexed.mem_nodes_cyclicPart_iff (indexed : s.Indexed) :
    x ∈ s.cyclicPart.nodes ↔ TransGen s.Arc x x := by
  rw [← indexed.listsCycles_cyclic.mem_flatten, indexed.cyclicPart_eq, nodes_filterArcs,
    mem_nodes_restrict]
  simp only [map_node_entriesOf, ← List.map_flatten, ← List.mem_map]

/-- The nodes of a cyclic part are the ends of its arcs, so its arcs say all about it. -/
theorem Indexed.spans_cyclicPart (indexed : s.Indexed)
    (arcs : ∀ u v, s.cyclicPart.Arc u v ↔ r u v) : s.cyclicPart.Spans r where
  arc_iff := arcs
  mem_nodes_iff x := by
    rw [indexed.mem_nodes_cyclicPart_iff, transGen_self_iff]
    simp only [← arcs, indexed.arc_cyclicPart]

/-! ## When the excused arcs are dropped -/

/-- Between the two searches: the first cut loses no arc that the second one needs. -/
theorem Indexed.spans_unexcusedCycles (indexed : s.Indexed) :
    (s.unexcusedCycles t).Spans (Returning (s.Unexcused t)) := by
  apply (indexed_cyclicPart s).dropExcused.spans_cyclicPart
  intro u v
  exact indexed.arc_unexcusedCycles

/-- Before the search, which then has to be done only once. -/
theorem Indexed.spans_cyclicPart_dropExcused (indexed : s.Indexed) :
    (s.dropExcused t).cyclicPart.Spans (Returning (s.Unexcused t)) := by
  have arcs : (s.dropExcused t).Arc = s.Unexcused t := by
    funext u v
    exact propext indexed.arc_dropExcused
  apply indexed.dropExcused.spans_cyclicPart
  intro u v
  rw [indexed.dropExcused.arc_cyclicPart, arcs]

theorem Indexed.spans_unexcusedCycles_twice (indexed : s.Indexed) :
    ((s.unexcusedCycles t).unexcusedCycles t).Spans (Returning (s.Unexcused t)) := by
  have spans := (indexed_unexcusedCycles t s).spans_unexcusedCycles (t := t)
  have arcs : Returning (Returning (s.Unexcused t)) = Returning (s.Unexcused t) := by
    funext u v
    exact propext returning_returning
  rwa [indexed.unexcused_unexcusedCycles, arcs] at spans

theorem findCyclicPart_eq (numbered : s.numbered = true) :
    s.findCyclicPart = .ok s.cyclicPart := by
  simp [findCyclicPart, requireNumberedEntries_eq numbered, bind, Except.bind, pure, Except.pure]

theorem Indexed.removeExcused_eq (indexed : s.Indexed) :
    s.removeExcused t = .ok (s.dropExcused t, (s.excusedArcs t).length) := by
  have inRange : (s.placedArcs.all fun arc => arc.2 < s.size) = true := by
    apply List.all_eq_true.mpr
    rintro ⟨i, j⟩ listed
    obtain ⟨_, _, -, target, -⟩ := indexed.mem_placedArcs.mp listed
    obtain ⟨_, found, -⟩ := getElem?_nodes.mp target
    exact decide_eq_true (List.getElem?_eq_some_iff.mp found).1
  rw [removeExcused, requireNumberedEntries_eq indexed.numbered, removeExcusedArcs, if_pos inRange]
  rfl

end Snapshot

/-! ## The view -/

namespace View

open Snapshot

variable {t : Tree} {s : Snapshot}

theorem apply_cyclesOnly (numbered : s.numbered = true) :
    cyclesOnly.apply t s = .ok (s.unexcusedCycles t) := by
  simp only [cyclesOnly, requireNumberedEntries_eq numbered]

/-- The view of the cycles shows the arcs on closed walks of unexcused arcs, and the ends of these
arcs. Dropping the excused arcs first gives the same, and so does a second application. -/
theorem cyclesOnly_keeps_unexcused_cycles (derived : Derived t s) (numbered : s.numbered = true) :
    ∃ kept, cyclesOnly.apply t s = .ok kept ∧
      (∀ u v, kept.Arc u v ↔
        s.Unexcused t u v ∧ ReflTransGen (s.Unexcused t) v u) ∧
      (∀ x, x ∈ kept.nodes ↔
        ∃ u v, (s.Unexcused t u v ∧ ReflTransGen (s.Unexcused t) v u) ∧ (x = u ∨ x = v)) ∧
      (∃ dropped count cyclic, s.removeExcused t = .ok (dropped, count) ∧
        dropped.findCyclicPart = .ok cyclic ∧ kept.SameSets cyclic) ∧
      ∃ again, cyclesOnly.apply t kept = .ok again ∧ kept.SameSets again := by
  have indexed := derived.indexed numbered
  have spans := indexed.spans_unexcusedCycles (t := t)
  refine ⟨_, apply_cyclesOnly numbered, spans.arc_iff, spans.mem_nodes_iff,
    ⟨_, _, _, indexed.removeExcused_eq, findCyclicPart_eq indexed.dropExcused.numbered, ?_⟩, _,
    apply_cyclesOnly (indexed_unexcusedCycles t s).numbered, ?_⟩
  · exact spans.sameSets indexed.spans_cyclicPart_dropExcused
  · exact spans.sameSets indexed.spans_unexcusedCycles_twice

/-- Two units that use each other, and an inner unit of one of them on a longer way round. -/
def detour : Tree :=
  [.createLeaf Tree.root "p.A", .createLeaf Tree.root "p.B", .createLeaf Tree.root "p.A$I",
    .link 2 3, .link 3 2, .link 3 4, .link 4 2].foldl Tree.perform .empty

/-- The inner unit lies on a cycle with the others, and leaves it with its excused arc. -/
theorem cyclesOnly_keeps_unexcused_cycles_detour :
    detour.Reachable ∧ Derived detour (ofTree detour) ∧ (ofTree detour).numbered = true ∧
    Returning (ofTree detour).Arc 3 4 ∧ Excuse.coversArc detour 4 2 = true ∧
    ∃ kept, cyclesOnly.apply detour (ofTree detour) = .ok kept ∧
      kept.Arc 2 3 ∧ kept.Arc 3 2 ∧ 4 ∉ kept.nodes ∧
      ∃ again, cyclesOnly.apply detour kept = .ok again ∧ kept.SameSets again := by
  have arcs : (ofTree detour).nodeArcs = [(2, 3), (3, 2), (3, 4), (4, 2)] := by decide +kernel
  have excused : Excuse.coversArc detour 4 2 = true := by decide +kernel
  have there : (ofTree detour).Unexcused detour 2 3 := ⟨by simp [Arc, arcs], by decide +kernel⟩
  have back : (ofTree detour).Unexcused detour 3 2 := ⟨by simp [Arc, arcs], by decide +kernel⟩
  have round : Returning (ofTree detour).Arc 3 4 :=
    ⟨by simp [Arc, arcs], .tail (.single (by simp [Arc, arcs])) there.1⟩
  -- The only arc that leaves the inner unit is excused.
  have stays : ∀ v, ¬ (ofTree detour).Unexcused detour 4 v := by
    intro v arc
    have target : v = 2 := by simpa [Arc, arcs] using arc.1
    have unexcused := arc.2
    rw [target, excused] at unexcused
    cases unexcused
  obtain ⟨kept, applied, arc_iff, node_iff, -, again⟩ :=
    cyclesOnly_keeps_unexcused_cycles (t := detour) .ofTree (indexed_ofTree detour).numbered
  refine ⟨Tree.Reachable.empty.run _, .ofTree, (indexed_ofTree detour).numbered, round, excused, kept,
    applied,
    (arc_iff 2 3).mpr ⟨there, .single back⟩, (arc_iff 3 2).mpr ⟨back, .single there⟩, ?_, again⟩
  intro inside
  obtain ⟨u, v, ⟨arc, walk⟩, rfl | rfl⟩ := (node_iff 4).mp inside
  · exact stays v arc
  · cases walk.cases_head with
    | inl same => exact stays 4 (same ▸ arc)
    | inr first =>
      obtain ⟨w, leaves, -⟩ := first
      exact stays w leaves

end View

end ClassCoupling
