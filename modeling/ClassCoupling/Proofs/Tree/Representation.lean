import ClassCoupling.Proofs.Tree.Ancestry
import ClassCoupling.Tree.Shown

/-!
# Which node shows a leaf

The node that shows another is found by going up, the shown nodes by walking down, and what a node
stands for from its own list mode. The three agree: the nodes that show themselves are the ones the
visible walk meets, and such a node stands for exactly the leaves that it shows.
-/

namespace ClassCoupling.Tree

variable {t : Tree} {id a b u v x : NodeId}

/-- No collapsed container lies above the node. -/
def Exposed (t : Tree) (id : NodeId) : Prop := ∀ a ∈ t.ancestors id, t.mode a ≠ .collapsed

/-- The node is a leaf merged into its leafs-collapsed container. -/
def MergedInto (t : Tree) (id p : NodeId) : Prop :=
  t.isLeaf id = true ∧ t.parent? id = some p ∧ t.mode p = .leafsCollapsed

theorem exposed_root (tree : t.Contained) : t.Exposed root := by
  simp [Exposed, ancestors_root tree]

theorem exposed_child (tree : t.Contained) {p : NodeId} (h : t.parent? id = some p) :
    t.Exposed id ↔ t.mode p ≠ .collapsed ∧ t.Exposed p := by
  simp [Exposed, ancestors_eq tree h]

theorem ancestors_comparable (tree : t.Contained) (ha : a ∈ t.ancestors x)
    (hb : b ∈ t.ancestors x) : a = b ∨ a ∈ t.ancestors b ∨ b ∈ t.ancestors a := by
  induction x using ancestors_induction tree with
  | top x h => simp [ancestors_eq_nil h] at ha
  | below x p h ih =>
    rw [ancestors_eq tree h] at ha hb
    rcases List.mem_cons.mp ha with rfl | upA
    · exact (List.mem_cons.mp hb).imp Eq.symm .inr
    · rcases List.mem_cons.mp hb with rfl | upB
      · exact .inr (.inl upA)
      · exact ih upA upB

/-! ## The way up -/

/-- Going up, the outermost collapsed container takes over from the node started with. -/
theorem foldl_ancestors_cases (tree : t.Contained) (id start : NodeId) :
    let shown := (t.ancestors id).foldl
      (fun shown ancestor => if t.mode ancestor = .collapsed then ancestor else shown) start
    (t.Exposed id ∧ shown = start) ∨
      ∃ a ∈ t.ancestors id, t.mode a = .collapsed ∧ t.Exposed a ∧ shown = a := by
  induction id using ancestors_induction tree generalizing start with
  | top id h => exact .inl ⟨by simp [Exposed, ancestors_eq_nil h], by simp [ancestors_eq_nil h]⟩
  | below id p h ih =>
    simp only [ancestors_eq tree h, List.foldl_cons]
    rcases ih (if t.mode p = .collapsed then p else start) with ⟨exposed, shown⟩ | ⟨a, mem, found⟩
    · by_cases collapsed : t.mode p = .collapsed
      · rw [if_pos collapsed] at shown
        exact .inr ⟨p, List.mem_cons_self, collapsed, exposed, by rw [if_pos collapsed, shown]⟩
      · rw [if_neg collapsed] at shown
        exact .inl
          ⟨(exposed_child tree h).mpr ⟨collapsed, exposed⟩, by rw [if_neg collapsed, shown]⟩
    · exact .inr ⟨a, List.mem_cons_of_mem _ mem, found⟩

theorem exists_start (t : Tree) (id : NodeId) :
    ∃ start, ((start = id ∧ ∀ p, ¬ t.MergedInto id p) ∨ t.MergedInto id start) ∧
      t.representative id = (t.ancestors id).foldl
        (fun shown ancestor => if t.mode ancestor = .collapsed then ancestor else shown) start := by
  cases h : t.parent? id with
  | none => exact ⟨id, .inl ⟨rfl, by simp [MergedInto, h]⟩, by simp only [representative, h]⟩
  | some p =>
    by_cases merged : t.isLeaf id = true ∧ t.mode p = .leafsCollapsed
    · exact ⟨p, .inr ⟨merged.1, h, merged.2⟩, by simp only [representative, h, if_pos merged]⟩
    · refine ⟨id, .inl ⟨rfl, ?_⟩, by simp only [representative, h, if_neg merged]⟩
      intro q mergedInto
      obtain ⟨leaf, hq, mode⟩ := mergedInto
      rw [h, Option.some.injEq] at hq
      exact merged ⟨leaf, hq ▸ mode⟩

theorem representative_cases (tree : t.Contained) (id : NodeId) :
    (t.Exposed id ∧ (∀ p, ¬ t.MergedInto id p) ∧ t.representative id = id) ∨
      (∃ p, t.Exposed id ∧ t.MergedInto id p ∧ t.representative id = p) ∨
      ∃ a ∈ t.ancestors id, t.mode a = .collapsed ∧ t.Exposed a ∧ t.representative id = a := by
  obtain ⟨start, started, shown⟩ := exists_start t id
  rw [shown]
  rcases foldl_ancestors_cases tree id start with ⟨exposed, unchanged⟩ | found
  · rw [unchanged]
    cases started with
    | inl alone => exact .inl ⟨exposed, alone.2, alone.1⟩
    | inr merged => exact .inr (.inl ⟨start, exposed, merged, rfl⟩)
  · exact .inr (.inr found)

/-- A collapsed container that is not hidden itself shows everything below it. -/
theorem representative_of_collapsed (tree : t.Contained) (above : a ∈ t.ancestors x)
    (collapsed : t.mode a = .collapsed) (exposed : t.Exposed a) : t.representative x = a := by
  rcases representative_cases tree x with
    ⟨clear, -⟩ | ⟨p, clear, -⟩ | ⟨b, mem, mode, exposedB, shown⟩
  · exact absurd collapsed (clear a above)
  · exact absurd collapsed (clear a above)
  · rw [shown]
    rcases ancestors_comparable tree mem above with same | below | below
    · exact same
    · exact absurd mode (exposed b below)
    · exact absurd collapsed (exposedB a below)

theorem representative_of_mergedInto (tree : t.Contained) {p : NodeId} (exposed : t.Exposed x)
    (merged : t.MergedInto x p) : t.representative x = p := by
  rcases representative_cases tree x with ⟨-, alone, -⟩ | ⟨q, -, mergedQ, shown⟩ | ⟨a, mem, mode, -⟩
  · exact absurd merged (alone p)
  · rw [shown]
    exact Option.some.inj (mergedQ.2.1.symm.trans merged.2.1)
  · exact absurd mode (exposed a mem)

theorem representative_eq_self_iff (tree : t.Contained) :
    t.representative x = x ↔ t.Exposed x ∧ ∀ p, ¬ t.MergedInto x p := by
  constructor
  · intro self
    rcases representative_cases tree x with ⟨exposed, alone, -⟩ | ⟨p, -, merged, shown⟩ |
      ⟨a, mem, -, -, shown⟩
    · exact ⟨exposed, alone⟩
    · have := tree.parent_lt merged.2.1
      rw [← shown, self] at this
      exact absurd this (Nat.lt_irrefl x)
    · have := lt_of_mem_ancestors tree mem
      rw [← shown, self] at this
      exact absurd this (Nat.lt_irrefl x)
  · rintro ⟨exposed, alone⟩
    rcases representative_cases tree x with ⟨-, -, shown⟩ | ⟨p, -, merged, -⟩ | ⟨a, mem, mode, -⟩
    · exact shown
    · exact absurd merged (alone p)
    · exact absurd mode (exposed a mem)

theorem not_mergedInto_of_container (h : t.isLeaf x = false) (p : NodeId) : ¬ t.MergedInto x p := by
  rintro ⟨leaf, -⟩
  simp [h] at leaf

/-- The node that shows another is itself shown. -/
theorem representative_representative (tree : t.Contained) (x : NodeId) :
    t.representative (t.representative x) = t.representative x := by
  rcases representative_cases tree x with ⟨-, -, shown⟩ | ⟨p, exposed, merged, shown⟩ |
    ⟨a, mem, -, exposed, shown⟩
  · rw [shown, shown]
  · rw [shown, representative_eq_self_iff tree]
    exact ⟨((exposed_child tree merged.2.1).mp exposed).2,
      not_mergedInto_of_container (tree.isLeaf_parent merged.2.1)⟩
  · rw [shown, representative_eq_self_iff tree]
    exact ⟨exposed, not_mergedInto_of_container (isLeaf_of_mem_ancestors tree mem)⟩

/-- A node is shown by itself or by a container above it. -/
theorem representative_mem (tree : t.Contained) (x : NodeId) :
    t.representative x = x ∨ t.representative x ∈ t.ancestors x := by
  rcases representative_cases tree x with
    ⟨-, -, shown⟩ | ⟨p, -, merged, shown⟩ | ⟨a, mem, -, -, shown⟩
  · exact .inl shown
  · rw [shown, ancestors_eq tree merged.2.1]
    exact .inr List.mem_cons_self
  · rw [shown]
    exact .inr mem

/-! ## The visible walk -/

/-- The visible walk is the whole walk without the nodes that others show. -/
theorem walkVisible_eq_filter (tree : t.Contained) (exposed : t.Exposed id) :
    t.walkVisible id = (t.walkAll id).filter fun x => t.representative x = x := by
  induction id using children_induction (t := t) with
  | step id ih =>
    rw [walkVisible_eq]
    split
    · next collapsed =>
      refine (List.filter_eq_nil_iff.mpr fun x mem => ?_).symm
      have above := (mem_walkAll tree).mp mem
      rw [representative_of_collapsed tree above collapsed exposed]
      simpa using Nat.ne_of_lt (lt_of_mem_ancestors tree above)
    · next uncollapsed =>
      rw [walkAll_eq, List.filter_flatMap]
      refine List.flatMap_congr fun c child => ?_
      have parent := (mem_children tree).mp child
      have exposedC := (exposed_child tree parent).mpr ⟨uncollapsed, exposed⟩
      by_cases merged : t.mode id = .leafsCollapsed ∧ t.isLeaf c = true
      · have shown := representative_of_mergedInto tree exposedC ⟨merged.2, parent, merged.1⟩
        have differs := Nat.ne_of_lt (tree.parent_lt parent)
        simp [merged, walkAll_eq_nil_of_isLeaf merged.2, shown, differs]
      · have alone : ∀ p, ¬ t.MergedInto c p := by
          rintro p ⟨leaf, hp, mode⟩
          rw [parent, Option.some.injEq] at hp
          exact merged ⟨hp ▸ mode, leaf⟩
        have self := (representative_eq_self_iff tree).mpr ⟨exposedC, alone⟩
        rw [if_neg merged, ih c child exposedC, List.filter_append]
        simp [self]

theorem mem_walkVisible_root (tree : t.Contained) :
    x ∈ t.walkVisible root ↔ x ≠ root ∧ x < t.size ∧ t.representative x = x := by
  rw [walkVisible_eq_filter tree (exposed_root tree), List.mem_filter, mem_walkAll_root tree]
  simp [and_assoc]

theorem walkVisible_root_nodup (tree : t.Contained) : (t.walkVisible root).Nodup := by
  rw [walkVisible_eq_filter tree (exposed_root tree)]
  exact (walkAll_nodup tree root).filter _

/-! ## What a node stands for -/

/-- A node that shows itself stands for exactly the leaves it shows. -/
theorem mem_containedLeaves (tree : t.Contained) (self : t.representative u = u) :
    a ∈ t.containedLeaves u ↔ t.isLeaf a = true ∧ t.representative a = u := by
  obtain ⟨exposed, alone⟩ := (representative_eq_self_iff tree).mp self
  unfold containedLeaves
  by_cases leaf : t.isLeaf u = true
  · rw [if_pos leaf, List.mem_singleton]
    constructor
    · rintro rfl
      exact ⟨leaf, self⟩
    · rintro ⟨-, shown⟩
      rcases representative_mem tree a with same | above
      · rw [← same, shown]
      · rw [shown] at above
        simp [isLeaf_of_mem_ancestors tree above] at leaf
  · have container := Bool.eq_false_iff.mpr leaf
    rw [if_neg leaf]
    split
    · next collapsed =>
      rw [mem_descendantLeaves tree container]
      refine and_congr_right fun leafA => ?_
      constructor
      · intro above
        exact representative_of_collapsed tree above collapsed exposed
      · intro shown
        rcases representative_mem tree a with same | above
        · rw [← shown, same] at leaf
          exact absurd leafA leaf
        · exact shown ▸ above
    · next mode =>
      simp only [List.mem_filter, mem_children tree, and_comm (b := t.isLeaf a = true)]
      refine and_congr_right fun leafA => ?_
      constructor
      · intro parent
        have uncollapsed : t.mode u ≠ .collapsed := by simp [mode]
        exact representative_of_mergedInto tree
          ((exposed_child tree parent).mpr ⟨uncollapsed, exposed⟩) ⟨leafA, parent, mode⟩
      · intro shown
        rcases representative_cases tree a with ⟨-, -, same⟩ | ⟨p, -, merged, same⟩ |
          ⟨b, -, collapsed, -, same⟩
        · rw [← shown, same] at leaf
          exact absurd leafA leaf
        · rw [← shown, same]
          exact merged.2.1
        · rw [← same, shown, mode] at collapsed
          simp at collapsed
    · next mode =>
      refine iff_of_false (by simp) ?_
      rintro ⟨leafA, shown⟩
      rcases representative_cases tree a with ⟨-, -, same⟩ | ⟨p, -, merged, same⟩ |
        ⟨b, -, collapsed, -, same⟩
      · rw [← shown, same] at leaf
        exact leaf leafA
      · have := merged.2.2
        rw [← same, shown, mode] at this
        simp at this
      · rw [← same, shown, mode] at collapsed
        simp at collapsed

theorem containedLeaves_nodup (tree : t.Contained) (u : NodeId) : (t.containedLeaves u).Nodup := by
  unfold containedLeaves
  by_cases leaf : t.isLeaf u = true
  · simp [leaf]
  · rw [if_neg leaf]
    split
    · exact descendantLeaves_nodup tree (Bool.eq_false_iff.mpr leaf)
    · exact (children_nodup tree u).filter _
    · exact List.nodup_nil

/-- A container stands for leaves below it alone. -/
theorem mem_ancestors_of_mem_containedLeaves (tree : t.Contained) (container : t.isLeaf u = false)
    (standsFor : a ∈ t.containedLeaves u) : u ∈ t.ancestors a := by
  rw [containedLeaves, if_neg (Bool.eq_false_iff.mp container)] at standsFor
  split at standsFor
  · exact ((mem_descendantLeaves tree container).mp standsFor).2
  · exact mem_ancestors_of_child tree ((mem_children tree).mp (List.mem_of_mem_filter standsFor))
  · simp at standsFor

/-- Under an expanded root, no leaf is shown by the root. -/
theorem representative_ne_root (tree : t.Contained) (expanded : t.mode root = .expanded)
    (leaf : t.isLeaf a = true) : t.representative a ≠ root := by
  intro shown
  have standsFor := (mem_containedLeaves tree (shown ▸ representative_representative tree a)).mpr
    ⟨leaf, shown⟩
  simp [containedLeaves, tree.root_isLeaf, expanded] at standsFor

/-! ## Reasons -/

theorem reasonLeaves_eq (standsFor : t.containedLeaves u ≠ []) :
    t.reasonLeaves u = t.containedLeaves u := by
  unfold reasonLeaves
  split
  · next expanded =>
    simp only [Bool.and_eq_true, Bool.not_eq_true', decide_eq_true_eq] at expanded
    simp [containedLeaves, expanded] at standsFor
  · rfl

theorem mem_reasons : (a, b) ∈ t.reasons u v ↔
    a ∈ t.reasonLeaves u ∧ b ∈ t.uses a ∧ b ∈ t.reasonLeaves v := by
  simp [reasons]

/-- The leaves that explain the links of a container lie below it. -/
theorem mem_ancestors_of_mem_reasonLeaves (tree : t.Contained) (container : t.isLeaf u = false)
    (explains : a ∈ t.reasonLeaves u) : u ∈ t.ancestors a := by
  unfold reasonLeaves at explains
  split at explains
  · exact ((mem_descendantLeaves tree container).mp explains).2
  · exact mem_ancestors_of_mem_containedLeaves tree container explains

/-- A link is explained by leaves at or below its end, however that is shown. -/
theorem eq_or_mem_ancestors_of_mem_reasonLeaves (tree : t.Contained)
    (explains : a ∈ t.reasonLeaves u) : u = a ∨ u ∈ t.ancestors a := by
  cases leaf : t.isLeaf u with
  | true =>
    have only : t.reasonLeaves u = [u] := by simp [reasonLeaves, containedLeaves, leaf]
    rw [only, List.mem_singleton] at explains
    exact .inl explains.symm
  | false => exact .inr (mem_ancestors_of_mem_reasonLeaves tree leaf explains)

end ClassCoupling.Tree
