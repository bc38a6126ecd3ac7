import ClassCoupling.Proofs.Snapshot.Cycles
import ClassCoupling.Proofs.Snapshot.Quotient
import ClassCoupling.Proofs.Text.Cut
import Mathlib.Data.List.Chain

/-!
# Excused arcs close no walk

Every excuse leads either to a container further down or, inside one container, to a unit of a
shorter name. This is true of the references behind an arc and carries over to the nodes that show
their ends, so that excused arcs alone never lead back to where they started.
-/

namespace ClassCoupling

open Relation

namespace Tree

variable {t : Tree} {a b c p q : NodeId}

/-- The container a node counts for: that of a leaf, and a container itself. -/
def holder (t : Tree) (id : NodeId) : NodeId :=
  if t.isLeaf id then (t.parent? id).getD id else id

theorem holder_of_isLeaf (leaf : t.isLeaf a = true) (above : t.parent? a = some p) :
    t.holder a = p := by
  simp [holder, leaf, above]

theorem holder_of_container (container : t.isLeaf a = false) : t.holder a = a := by
  simp [holder, container]

/-- A leaf is shown for its own container, unless a collapsed one hides it. -/
theorem holder_representative (tree : t.Contained) (leaf : t.isLeaf a = true)
    (above : t.parent? a = some p) :
    (t.Exposed a ∧ t.holder (t.representative a) = p) ∨
      ∃ c ∈ t.ancestors a, t.mode c = .collapsed ∧ t.Exposed c ∧ t.representative a = c := by
  rcases representative_cases tree a with ⟨exposed, -, shown⟩ | ⟨q, exposed, merged, shown⟩ | hidden
  · left
    rw [shown]
    exact ⟨exposed, holder_of_isLeaf leaf above⟩
  · left
    rw [shown, holder_of_container (tree.isLeaf_parent merged.2.1)]
    exact ⟨exposed, Option.some.inj (merged.2.1.symm.trans above)⟩
  · exact .inr hidden

/-- Leaves of one container are shown by themselves or all by one container. -/
theorem representative_of_siblings (tree : t.Contained) (leafA : t.isLeaf a = true)
    (leafB : t.isLeaf b = true) (aboveA : t.parent? a = some p) (aboveB : t.parent? b = some p) :
    (t.representative a = a ∧ t.representative b = b) ∨
      (t.representative a = t.representative b ∧ t.isLeaf (t.representative a) = false) := by
  have same : t.ancestors b = t.ancestors a := by
    rw [ancestors_eq tree aboveA, ancestors_eq tree aboveB]
  rcases representative_cases tree a with ⟨exposed, alone, shown⟩ | ⟨q, exposed, merged, shown⟩ |
    ⟨c, mem, mode, exposed, shown⟩
  · refine .inl ⟨shown, (representative_eq_self_iff tree).mpr ⟨?_, ?_⟩⟩
    · rw [Exposed, same]
      exact exposed
    · intro q merged
      rw [MergedInto, aboveB] at merged
      exact alone q ⟨leafA, aboveA.trans merged.2.1, merged.2.2⟩
  · right
    have atP : q = p := Option.some.inj (merged.2.1.symm.trans aboveA)
    have mergedB : t.MergedInto b p := ⟨leafB, aboveB, atP ▸ merged.2.2⟩
    have exposedB : t.Exposed b := by
      rw [Exposed, same]
      exact exposed
    rw [representative_of_mergedInto tree exposedB mergedB, shown, atP]
    exact ⟨rfl, tree.isLeaf_parent aboveA⟩
  · right
    have overB : c ∈ t.ancestors b := by
      rw [same]
      exact mem
    rw [representative_of_collapsed tree overB mode exposed, shown]
    exact ⟨rfl, isLeaf_of_mem_ancestors tree mem⟩

/-- A reference that leads down shows as one that leads down, or stays inside one container. -/
theorem holder_mem_ancestors (tree : t.Contained) (leafA : t.isLeaf a = true)
    (leafB : t.isLeaf b = true) (aboveA : t.parent? a = some p) (aboveB : t.parent? b = some q)
    (down : p ∈ t.ancestors q) :
    t.holder (t.representative a) ∈ t.ancestors (t.holder (t.representative b)) ∨
      (t.representative a = t.representative b ∧ t.isLeaf (t.representative a) = false) := by
  have overB : p ∈ t.ancestors b := by
    rw [ancestors_eq tree aboveB]
    exact List.mem_cons_of_mem _ down
  have overA : p ∈ t.ancestors a := by
    rw [ancestors_eq tree aboveA]
    exact List.mem_cons_self
  rcases holder_representative tree leafA aboveA with
    ⟨exposed, atP⟩ | ⟨c, mem, mode, exposed, shown⟩
  · left
    rw [atP]
    rcases holder_representative tree leafB aboveB with ⟨-, atQ⟩ | ⟨c, mem, mode, -, shown⟩
    · rw [atQ]
      exact down
    · rw [shown, holder_of_container (isLeaf_of_mem_ancestors tree mem)]
      -- Were the collapsed container at or above `p`, it would hide the source as well.
      rcases ancestors_comparable tree mem overB with same | further | below
      · exact absurd (same ▸ mode) (exposed p overA)
      · exact absurd mode (exposed c (mem_ancestors_trans tree overA further))
      · exact below
  · right
    have overB : c ∈ t.ancestors b := by
      rw [ancestors_eq tree aboveA] at mem
      rcases List.mem_cons.mp mem with same | further
      · exact same ▸ overB
      · exact mem_ancestors_trans tree overB further
    rw [representative_of_collapsed tree overB mode exposed, shown]
    exact ⟨rfl, isLeaf_of_mem_ancestors tree mem⟩

end Tree

namespace Excuse

variable {t : Tree} {a b u v : NodeId} {rule : Excuse}

theorem pointsDown_iff : pointsDown t a b = true ↔
    ∃ p q, t.parent? a = some p ∧ t.parent? b = some q ∧ p ∈ t.ancestors q := by
  unfold pointsDown Tree.isAncestor
  cases aboveA : t.parent? a <;> cases aboveB : t.parent? b <;> simp

theorem length_lt_of_isInnerOf (inner : isInnerOf t a b = true) :
    t.parent? a = t.parent? b ∧ (t.name b).length < (t.name a).length := by
  simp only [isInnerOf, Bool.and_eq_true, decide_eq_true_eq, Option.any_eq_true] at inner
  obtain ⟨⟨-, beside⟩, ⟨outer, rest⟩, cut, named⟩ := inner
  refine ⟨beside, ?_⟩
  rw [← named]
  exact Text.length_lt_of_atLast? cut

/-- Every rule leads to a container further down, or to a shorter name in the same one. -/
theorem holds_cases (holds : rule.holds t a b = true) :
    (t.parent? a = t.parent? b ∧ (t.name b).length < (t.name a).length) ∨
      ∃ p q, t.parent? a = some p ∧ t.parent? b = some q ∧ p ∈ t.ancestors q := by
  cases rule with
  | innerToOuter => exact .inl (length_lt_of_isInnerOf holds)
  | factory =>
    rw [Excuse.holds, Bool.and_eq_true] at holds
    exact .inr (pointsDown_iff.mp holds.2)
  | testSuite =>
    rw [Excuse.holds, Bool.and_eq_true] at holds
    exact .inr (pointsDown_iff.mp holds.2)

theorem coversArc_iff : coversArc t u v = true ↔
    t.reasons u v ≠ [] ∧
      ∃ rule : Excuse, ∀ a b, (a, b) ∈ t.reasons u v → rule.holds t a b = true := by
  unfold coversArc ofArc?
  by_cases unexplained : t.reasons u v = []
  · simp [unexplained]
  · have every : ∀ rule : Excuse, rule ∈ all := by
      intro rule
      cases rule <;> decide
    simp [unexplained, List.find?_isSome, every]

end Excuse

namespace Snapshot

open Tree

variable {t : Tree} {u v x y : NodeId}

/-- An arc that some rule excuses. -/
def Excused (t : Tree) (s : Snapshot) (u v : NodeId) : Prop :=
  s.Arc u v ∧ Excuse.coversArc t u v = true

/-- Further down, or in the same container at a shorter name. -/
def Descends (t : Tree) (u v : NodeId) : Prop :=
  t.holder u < t.holder v ∨
    (t.holder u = t.holder v ∧ (t.name v).length < (t.name u).length)

theorem Descends.trans (first : Descends t u v) (second : Descends t v x) : Descends t u x := by
  rcases first with down | ⟨same, shorter⟩
  · rcases second with further | ⟨same, -⟩
    · exact .inl (Nat.lt_trans down further)
    · exact .inl (same ▸ down)
  · rcases second with down | ⟨still, further⟩
    · exact .inl (same ▸ down)
    · exact .inr ⟨same.trans still, Nat.lt_trans further shorter⟩

theorem not_descends_self : ¬ Descends t u u := by
  intro descends
  rcases descends with down | ⟨-, shorter⟩
  · exact Nat.lt_irrefl _ down
  · exact Nat.lt_irrefl _ shorter

theorem Excused.descends (wf : t.WellFormed) (excused : Excused t (ofTree t) u v) :
    Descends t u v := by
  obtain ⟨arc, covered⟩ := excused
  have tree := wf.toContained
  obtain ⟨hu, hv, -⟩ := mem_nodeArcs_ofTree.mp arc
  have apart := ((arc_iff wf hu hv).mp arc).2
  obtain ⟨explained, rule, holds⟩ := Excuse.coversArc_iff.mp covered
  obtain ⟨⟨a, b⟩, reason⟩ := List.exists_mem_of_ne_nil _ explained
  obtain ⟨link, rfl, rfl⟩ := (mem_reasons_iff wf hu hv).mp reason
  have leafA := isLeaf_of_mem_uses link
  have leafB := wf.isLeaf link
  -- An arc inside one container would be an arc from that container to itself.
  have outside : ¬ (t.representative a = t.representative b ∧
      t.isLeaf (t.representative a) = false) := by
    intro inside
    rcases apart with differ | leaf
    · exact differ inside.1
    · simp [inside.2] at leaf
  rcases Excuse.holds_cases (holds a b reason) with ⟨beside, shorter⟩ | ⟨p, q, aboveA, aboveB, down⟩
  · right
    obtain ⟨p, aboveA⟩ := tree.has_parent (lt_of_isLeaf leafA) (by
      rintro rfl
      simp [tree.root_isLeaf] at leafA)
    have aboveB := beside.symm.trans aboveA
    obtain ⟨selfA, selfB⟩ :=
      (representative_of_siblings tree leafA leafB aboveA aboveB).resolve_right outside
    rw [selfA, selfB, holder_of_isLeaf leafA aboveA, holder_of_isLeaf leafB aboveB]
    exact ⟨rfl, shorter⟩
  · left
    apply lt_of_mem_ancestors tree
    exact (holder_mem_ancestors tree leafA leafB aboveA aboveB down).resolve_right outside

theorem descends_of_walk (wf : t.WellFormed) (walk : TransGen (Excused t (ofTree t)) x y) :
    Descends t x y := by
  induction walk with
  | single arc => exact arc.descends wf
  | tail _ arc ih => exact ih.trans (arc.descends wf)

/-! ## Walks given by their nodes -/

section Chains

variable {α : Type} {r : α → α → Prop}

theorem transGen_of_isChain {a b : α} {between : List α}
    (chain : (a :: (between ++ [b])).IsChain r) : TransGen r a b := by
  induction between generalizing a with
  | nil => exact .single (List.isChain_pair.mp chain)
  | cons c between ih =>
    obtain ⟨arc, rest⟩ := List.isChain_cons_cons.mp chain
    exact .head arc (ih rest)

theorem isChain_and_of_adjacent {p : α → α → Prop} {nodes : List α} (chain : nodes.IsChain r)
    (adjacent : ∀ a b, [a, b] <:+: nodes → p a b) : nodes.IsChain fun a b => r a b ∧ p a b := by
  induction chain with
  | nil => exact .nil
  | singleton a => exact .singleton a
  | @cons_cons a b rest arc _ ih =>
    refine .cons_cons ⟨arc, adjacent a b ⟨[], rest, rfl⟩⟩ (ih ?_)
    intro c d inside
    exact adjacent c d (inside.trans (List.suffix_cons a _).isInfix)

end Chains

/-- Excused arcs make up no closed walk, so that every cycle of a snapshot has another arc. -/
theorem excused_closes_no_walk (reached : t.Reachable) :
    (∀ x, ¬ TransGen (Excused t (ofTree t)) x x) ∧
    ∀ x between, (x :: (between ++ [x])).IsChain (ofTree t).Arc →
      ∃ u v, [u, v] <:+: x :: (between ++ [x]) ∧ Excuse.coversArc t u v = false := by
  have wf := reached.wellFormed
  have open_walks : ∀ x, ¬ TransGen (Excused t (ofTree t)) x x := by
    intro x walk
    exact not_descends_self (descends_of_walk wf walk)
  refine ⟨open_walks, ?_⟩
  intro x between chain
  by_contra none
  have all : ∀ u v, [u, v] <:+: x :: (between ++ [x]) → Excuse.coversArc t u v = true := by
    intro u v adjacent
    by_contra uncovered
    exact none ⟨u, v, adjacent, Bool.eq_false_iff.mpr uncovered⟩
  exact open_walks x (transGen_of_isChain (isChain_and_of_adjacent chain all))

/-- A cycle of four nodes, one of them a collapsed container: an inner unit and a factory make two
of its arcs excused. -/
def workshop : Tree :=
  [.createLeaf root "a.Outer$In", .createLeaf root "a.Outer", .createLeaf root "a.PartFactory",
    .createLeaf root "a.parts.Wheel", .link 2 3, .link 3 4, .link 4 6, .link 6 2,
    .setMode 5 .collapsed].foldl perform .empty

theorem excused_closes_no_walk_workshop :
    workshop.Reachable ∧ Excused workshop (ofTree workshop) 2 3 ∧
    Excused workshop (ofTree workshop) 4 5 ∧ [2, 3, 4, 5, 2].IsChain (ofTree workshop).Arc ∧
    ¬ TransGen (Excused workshop (ofTree workshop)) 2 2 ∧
    ∃ u v, [u, v] <:+: [2, 3, 4, 5, 2] ∧ Excuse.coversArc workshop u v = false := by
  have reached : workshop.Reachable := Reachable.empty.run _
  have arcs : (ofTree workshop).nodeArcs = [(2, 3), (3, 4), (4, 5), (5, 2)] := by decide +kernel
  have inner : Excuse.coversArc workshop 2 3 = true := by decide +kernel
  have factory : Excuse.coversArc workshop 4 5 = true := by decide +kernel
  have chain : [2, 3, 4, 5, 2].IsChain (ofTree workshop).Arc := by simp [Arc, arcs]
  obtain ⟨open_walks, others⟩ := excused_closes_no_walk reached
  exact ⟨reached, ⟨by simp [Arc, arcs], inner⟩, ⟨by simp [Arc, arcs], factory⟩, chain,
    open_walks 2, others 2 [3, 4, 5] chain⟩

end Snapshot

end ClassCoupling
