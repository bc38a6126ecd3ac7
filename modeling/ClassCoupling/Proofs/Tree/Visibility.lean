import ClassCoupling.Proofs.Tree.Reachable
import ClassCoupling.Proofs.Tree.Representation

/-!
# The visible nodes

A node is visible if it shows itself. The visible walk meets the visible nodes, each once, in the
order in which the whole walk meets them: a node after everything below it, siblings in the order of
their creation.
-/

namespace ClassCoupling.Tree

variable {t : Tree} {id c d x y : NodeId}

theorem ancestors_eq_of_siblings (tree : t.Contained) (siblings : t.parent? x = t.parent? y) :
    t.ancestors x = t.ancestors y := by
  cases parent : t.parent? y with
  | none => rw [ancestors_eq_nil parent, ancestors_eq_nil (siblings.trans parent)]
  | some p => rw [ancestors_eq tree parent, ancestors_eq tree (siblings.trans parent)]

/-! ## The order of a walk -/

/-- One node may come before another in a walk: it is not above it, and older if it is a sibling. -/
def ComesBefore (t : Tree) (x y : NodeId) : Prop :=
  x ∉ t.ancestors y ∧ (t.parent? x = t.parent? y → x < y)

theorem comesBefore_of_below (tree : t.Contained) (below : c ∈ t.ancestors x) :
    t.ComesBefore x c := by
  refine ⟨fun above => ?_, fun siblings => ?_⟩
  · exact Nat.lt_asymm (lt_of_mem_ancestors tree below) (lt_of_mem_ancestors tree above)
  · rw [ancestors_eq_of_siblings tree siblings] at below
    exact absurd (lt_of_mem_ancestors tree below) (Nat.lt_irrefl c)

/-- What lies at or below a child comes before what lies at or below a younger one. -/
theorem comesBefore_of_lt (tree : t.Contained) (hc : c ∈ t.children id) (hd : d ∈ t.children id)
    (older : c < d) (wayX : c ∈ t.ancestors x ∨ c = x) (wayY : d ∈ t.ancestors y ∨ d = y) :
    t.ComesBefore x y := by
  have apart {z : NodeId} (wayC : c ∈ t.ancestors z ∨ c = z) (wayD : d ∈ t.ancestors z ∨ d = z) :
      False :=
    Nat.ne_of_lt older
      (eq_of_siblings tree ((mem_children tree).mp hc) ((mem_children tree).mp hd) wayC wayD)
  refine ⟨fun above => ?_, fun siblings => ?_⟩
  · refine apart (.inl ?_) wayY
    rcases wayX with below | rfl
    · exact mem_ancestors_trans tree above below
    · exact above
  · have shared := ancestors_eq_of_siblings tree siblings
    rcases wayX with below | rfl
    · exact (apart (.inl (shared ▸ below)) wayY).elim
    · rcases wayY with below | rfl
      · exact (apart (.inr rfl) (.inl (shared ▸ below))).elim
      · exact older

theorem walkAll_ordered (tree : t.Contained) (id : NodeId) :
    (t.walkAll id).Pairwise t.ComesBefore := by
  have way {c x : NodeId} (mem : x ∈ t.walkAll c ++ [c]) : c ∈ t.ancestors x ∨ c = x := by
    rw [List.mem_append, mem_walkAll tree, List.mem_singleton] at mem
    exact mem.imp_right Eq.symm
  induction id using children_induction (t := t) with
  | step id ih =>
    rw [walkAll_eq, List.pairwise_flatMap]
    refine ⟨fun c child => ?_, ?_⟩
    · rw [List.pairwise_append]
      refine ⟨ih c child, List.pairwise_singleton _ _, fun x below y here => ?_⟩
      rw [List.mem_singleton.mp here]
      exact comesBefore_of_below tree ((mem_walkAll tree).mp below)
    · refine (children_sorted tree id).imp_of_mem fun hc hd older x inC y inD => ?_
      exact comesBefore_of_lt tree hc hd older (way inC) (way inD)

/-! ## The visible walk -/

/-- A tree with a collapsed container in a leafs-collapsed one, and the other way round. -/
def shelved : Tree :=
  [.createLeaf root "a.b.C", .createLeaf root "a.D", .createLeaf root "e.f.G",
    .createLeaf root "e.H", .createLeaf root "I", .setMode 1 .leafsCollapsed,
    .setMode 2 .collapsed, .setMode 5 .collapsed, .setMode 6 .leafsCollapsed].foldl perform .empty

/-- The visible walk is the whole walk of the nodes that show themselves, and every node is shown by
one that does. -/
theorem visible_walk_meets_what_shows_itself (reached : t.Reachable) :
    t.walkVisible root = (t.walkAll root).filter (fun x => t.representative x = x) ∧
    (∀ x, (t.walkVisible root).count x =
      if x ≠ root ∧ x < t.size ∧ t.representative x = x then 1 else 0) ∧
    (t.walkVisible root).Pairwise t.ComesBefore ∧
    ∀ x, t.representative (t.representative x) = t.representative x := by
  have tree := reached.wellFormed.toContained
  have kept := walkVisible_eq_filter tree (exposed_root tree)
  refine ⟨kept, fun x => ?_, ?_, representative_representative tree⟩
  · simp only [(walkVisible_root_nodup tree).count, mem_walkVisible_root tree]
  · rw [kept]
    exact (walkAll_ordered tree root).filter _

theorem visible_walk_meets_what_shows_itself_shelved :
    shelved.Reachable ∧ shelved.walkVisible root = [2, 1, 5, 9] ∧
    shelved.walkVisible root =
      (shelved.walkAll root).filter (fun x => shelved.representative x = x) ∧
    shelved.representative (shelved.representative 7) = shelved.representative 7 := by
  have reached : shelved.Reachable := Reachable.empty.run _
  obtain ⟨kept, -, -, idempotent⟩ := visible_walk_meets_what_shows_itself reached
  exact ⟨reached, by decide +kernel, kept, idempotent 7⟩

end ClassCoupling.Tree
