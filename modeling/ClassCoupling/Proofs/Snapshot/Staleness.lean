import ClassCoupling.Proofs.Snapshot.Likeness
import ClassCoupling.Proofs.Tree.Generation
import ClassCoupling.Proofs.View.Granularity

/-!
# A snapshot that is not stale is current

Whatever is done to a tree after a snapshot of it, as long as the generation is the one of the
snapshot, the tree still shows what the snapshot holds. A choice of granularity is a run of changes,
and a run that is not counted leaves the tree looking as it was.
-/

namespace ClassCoupling

namespace Tree

/-- What is done to a tree: one change, or a granularity for all its containers. -/
inductive Action where
  | change (change : Change)
  | present (granularity : Granularity)
  deriving DecidableEq, Repr

def act (t : Tree) : Action → Tree
  | .change change => t.perform change
  | .present granularity => (granularity.apply t).1

theorem exists_changes_act (t : Tree) (actions : List Action) :
    ∃ changes : List Change, actions.foldl act t = changes.foldl perform t := by
  induction actions generalizing t with
  | nil => exact ⟨[], rfl⟩
  | cons action actions ih =>
    obtain ⟨later, rest⟩ := ih (t.act action)
    cases action with
    | change change => exact ⟨change :: later, rest⟩
    | present granularity =>
      obtain ⟨first, presented⟩ := Granularity.exists_changes_apply t granularity
      refine ⟨first ++ later, rest.trans ?_⟩
      simp [act, presented]

end Tree

namespace Snapshot

open Tree

variable {t t' : Tree}

theorem isStale_ofTree : (ofTree t).isStale t' = false ↔ t'.generation = t.generation := by
  simp only [isStale, generation_ofTree, ne_eq, decide_eq_false_iff_not, not_not]
  exact eq_comm

/-- No run of actions makes a snapshot wrong without making it stale. -/
theorem ofTree_is_current_unless_stale (reached : t.Reachable) (actions : List Action)
    (fresh : (ofTree t).isStale (actions.foldl act t) = false) :
    ofTree (actions.foldl act t) = ofTree t := by
  have same := isStale_ofTree.mp fresh
  obtain ⟨changes, run⟩ := exists_changes_act t actions
  rw [run] at same ⊢
  have alike := reached.alike_of_generation_eq changes same
  calc ofTree (changes.foldl perform t)
    _ = (ofTree t).dated (changes.foldl perform t).generation :=
      alike.ofTree reached.wellFormed.toContained
    _ = (ofTree t).dated t.generation := by rw [same]
    _ = ofTree t := dated_ofTree t

/-- The layered tree, its packages shown with their units merged. -/
def packaged : Tree := (Granularity.packages.apply layered).1

/-- Actions that ask for what is there, that fail, or that note a missing name. -/
def idleActions : List Action :=
  [.present .packages, .change (.setMode 3 .expanded), .change (.createLeaf root "a.x.P"),
    .change (.createLeaf root "T.U"), .change (.link 3 4), .change (.link 1 2),
    .change (.recordMissing 3 "org.junit.Test")]

theorem ofTree_is_current_unless_stale_packaged :
    packaged.Reachable ∧ (ofTree packaged).isStale (idleActions.foldl act packaged) = false ∧
    idleActions.foldl act packaged ≠ packaged ∧
    ofTree (idleActions.foldl act packaged) = ofTree packaged ∧
    (packaged.createLeaf root "b.n.").2 = .error (.structural "b.n." "empty name segment") ∧
    (ofTree packaged).isStale (packaged.act (.change (.createLeaf root "b.n."))) = true := by
  have reached : packaged.Reachable := Granularity.reachable_apply reachable_layered
  have fresh : (ofTree packaged).isStale (idleActions.foldl act packaged) = false := by
    decide +kernel
  exact ⟨reached, fresh, by decide +kernel,
    ofTree_is_current_unless_stale reached idleActions fresh, by decide +kernel, by decide +kernel⟩

end Snapshot

end ClassCoupling
