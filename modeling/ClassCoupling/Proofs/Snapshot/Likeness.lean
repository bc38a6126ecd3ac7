import ClassCoupling.Proofs.Snapshot.Excused
import ClassCoupling.Proofs.Tree.Likeness
import ClassCoupling.Proofs.Tree.Path
import ClassCoupling.Snapshot.Coupling

/-!
# Snapshots of trees that look alike

A snapshot is read off what the tree shows, and so are excuses, but for the leaves that count as
tests and suites. Snapshots of trees that look alike differ in their generation only, and what is
made of them does not ask for it.
-/

namespace ClassCoupling

open Tree

variable {t t' : Tree}

/-! ## Excuses -/

namespace Excuse

/-- Every leaf marked as a test or as a suite in the first tree is so in the second. -/
structure KeepsMarks (t t' : Tree) : Prop where
  suite : ∀ leaf, isSuite t leaf = true → isSuite t' leaf = true
  test : ∀ leaf, isTest t leaf = true → isTest t' leaf = true

theorem refersTo_of_missing (shape : SameShape t t') (links : SameLinks t t') {leaf : NodeId}
    {unit : String} (missing : unit ∈ t.missing leaf → unit ∈ t'.missing leaf)
    (refers : refersTo t leaf unit = true) : refersTo t' leaf unit = true := by
  simp only [refersTo, links.uses, shape.displayName, Bool.or_eq_true,
    List.contains_iff_mem] at refers ⊢
  exact refers.imp_right missing

namespace KeepsMarks

theorem trans {t'' : Tree} (first : KeepsMarks t t') (second : KeepsMarks t' t'') :
    KeepsMarks t t'' :=
  ⟨fun leaf mark => second.suite leaf (first.suite leaf mark),
    fun leaf mark => second.test leaf (first.test leaf mark)⟩

theorem of_missing (shape : SameShape t t') (links : SameLinks t t')
    (missing : ∀ marker ∈ suiteMarkers ++ testMarkers, ∀ leaf,
      marker ∈ t.missing leaf → marker ∈ t'.missing leaf) : KeepsMarks t t' := by
  have marked : ∀ markers ⊆ suiteMarkers ++ testMarkers, ∀ leaf,
      markers.any (refersTo t leaf) = true → markers.any (refersTo t' leaf) = true := by
    intro markers known leaf mark
    obtain ⟨marker, listed, refers⟩ := List.any_eq_true.mp mark
    exact List.any_eq_true.mpr ⟨marker, listed,
      refersTo_of_missing shape links (missing marker (known listed) leaf) refers⟩
  exact ⟨marked _ (List.subset_append_left _ _), marked _ (List.subset_append_right _ _)⟩

theorem holds (marks : KeepsMarks t t') (shape : SameShape t t') {source target : NodeId}
    {rule : Excuse} (excused : rule.holds t source target = true) :
    rule.holds t' source target = true := by
  cases rule with
  | innerToOuter =>
    simpa only [Excuse.holds, isInnerOf, shape.isLeaf, shape.parent?, shape.name] using excused
  | factory =>
    simpa only [Excuse.holds, isFactory, pointsDown, shape.isLeaf, shape.displayName,
      shape.parent?, shape.isAncestor] using excused
  | testSuite =>
    simp only [Excuse.holds, pointsDown, shape.parent?, shape.isAncestor, Bool.and_eq_true,
      Bool.or_eq_true] at excused ⊢
    obtain ⟨⟨from_suite, listed⟩, down⟩ := excused
    exact ⟨⟨marks.suite _ from_suite, listed.imp (marks.suite _) (marks.test _)⟩, down⟩

theorem coversArc (marks : KeepsMarks t t') (alike : Alike t t') {u v : NodeId}
    (excused : coversArc t u v = true) : Excuse.coversArc t' u v = true := by
  rw [coversArc_iff] at excused ⊢
  obtain ⟨some_reason, rule, all⟩ := excused
  rw [alike.reasons]
  exact ⟨some_reason, rule, fun a b reason => marks.holds alike.shape (all a b reason)⟩

end KeepsMarks

/-- The same leaves are marked as tests and as suites. -/
structure SameMarks (t t' : Tree) : Prop where
  kept : KeepsMarks t t'
  no_others : KeepsMarks t' t

namespace SameMarks

theorem symm (marks : SameMarks t t') : SameMarks t' t := ⟨marks.no_others, marks.kept⟩

theorem trans {t'' : Tree} (first : SameMarks t t') (second : SameMarks t' t'') :
    SameMarks t t'' :=
  ⟨first.kept.trans second.kept, second.no_others.trans first.no_others⟩

theorem of_missing (shape : SameShape t t') (links : SameLinks t t')
    (missing : t'.missing = t.missing) : SameMarks t t' where
  kept := .of_missing shape links fun marker _ leaf listed => by rw [missing]; exact listed
  no_others := .of_missing shape.symm links.symm fun marker _ leaf listed => missing ▸ listed

theorem coversArc (marks : SameMarks t t') (alike : Alike t t') :
    coversArc t' = coversArc t := by
  funext u v
  rw [Bool.eq_iff_iff]
  exact ⟨marks.no_others.coversArc alike.symm, marks.kept.coversArc alike⟩

end SameMarks

end Excuse

theorem Tree.Alike.of_nodes_eq (same : t'.nodes = t.nodes) : Alike t t' := by
  obtain ⟨nodes, generation⟩ := t
  cases same
  exact ⟨⟨rfl, rfl, rfl, rfl, rfl⟩, ⟨rfl, rfl⟩, fun _ _ => rfl⟩

theorem Excuse.SameMarks.of_nodes_eq (same : t'.nodes = t.nodes) : SameMarks t t' := by
  have alike := Alike.of_nodes_eq same
  apply of_missing alike.shape alike.links
  funext leaf
  rw [missing, missing, node?, node?, same]

/-! ## Snapshots -/

/-- The same snapshot, taken at another generation. -/
def Snapshot.dated (s : Snapshot) (generation : Nat) : Snapshot := { s with generation }

namespace Tree.Alike

variable (alike : Alike t t') (tree : t.Contained)
include alike tree

theorem ofNodes (nodes : List NodeId) :
    Snapshot.ofNodes t' nodes =
      (Snapshot.ofNodes t nodes).dated t'.generation := by
  simp only [Snapshot.ofNodes_eq_build, Tree.successors, alike.unitCount, alike.shownLinks tree]
  rfl

theorem ofTree :
    Snapshot.ofTree t' = (Snapshot.ofTree t).dated t'.generation := by
  rw [Snapshot.ofTree, alike.walkVisible, alike.hasOwnContent, alike.ofNodes tree, Snapshot.ofTree]

end Tree.Alike

namespace Snapshot

theorem dated_ofTree (t : Tree) : (ofTree t).dated t.generation = ofTree t := by
  conv_lhs => rw [← generation_ofTree t]
  rfl

variable (s : Snapshot) (later : Nat)

theorem requireNumberedEntries_dated :
    (s.dated later).requireNumberedEntries = s.requireNumberedEntries :=
  rfl

theorem coupling_dated : coupling (s.dated later) = s.coupling := by
  with_unfolding_all rfl

theorem restrict_dated (entries : List Entry) :
    (s.dated later).restrict entries = (s.restrict entries).dated later := by
  rw [restrict_eq_build, restrict_eq_build]
  rfl

theorem Consistent.unlinkAll_dated {s : Snapshot} (consistent : s.Consistent)
    (arcs : List (Nat × Nat)) :
    (s.dated later).unlinkAll arcs = (s.unlinkAll arcs).dated later := by
  have same : (s.dated later).Consistent := { consistent with }
  rw [same.unlinkAll_eq, consistent.unlinkAll_eq]
  rfl

theorem cyclicPart_dated : cyclicPart (s.dated later) = s.cyclicPart.dated later := by
  unfold cyclicPart
  dsimp only
  rw [restrict_dated, (indexed_restrict _ _).unlinkAll_dated]
  with_unfolding_all rfl

theorem cycles_dated : cycles (s.dated later) = s.cycles := by
  with_unfolding_all rfl

theorem unexcusedCycles_dated (excuses : Excuse.coversArc t' = Excuse.coversArc t) :
    unexcusedCycles t' (s.dated later) =
      (s.unexcusedCycles t).dated later := by
  have dropped : dropExcused t' (s.cyclicPart.dated later) =
      (s.cyclicPart.dropExcused t).dated later := by
    unfold dropExcused excusedArcs
    rw [excuses, ← (indexed_cyclicPart s).unlinkAll_dated]
    rfl
  unfold unexcusedCycles
  rw [cyclicPart_dated, dropped, cyclicPart_dated]

theorem reachable_dated (start : Fin s.size) (direction : Direction) :
    (s.dated later).reachable start direction = (s.reachable start direction).dated later := by
  unfold reachable
  rw [← restrict_dated]
  with_unfolding_all rfl

theorem find_dated (shape : SameShape t t') (fullName : String) :
    find (s.dated later) t' fullName = s.find t fullName := by
  unfold find
  rw [shape.findByName?]
  rfl

end Snapshot

end ClassCoupling
