import ClassCoupling.Proofs.Tree.Reachable
import ClassCoupling.Scan.Project

/-!
# The tree of a scan is reachable

A scan only creates leaves below the root, links leaves and notes names at leaves: what it places
and what its names stand for are leaves at every moment.
-/

namespace ClassCoupling.Scan

open Tree

/-- What is placed, and what a name stands for, is a leaf of a reachable tree. -/
structure Placement.Sound (p : Placement) : Prop where
  reached : p.tree.Reachable
  named : ∀ entry ∈ p.byName, p.tree.isLeaf entry.2 = true
  placed : ∀ unit ∈ p.placed, p.tree.isLeaf unit.leaf = true

theorem Placement.Sound.place {p : Placement} (sound : p.Sound) (parsed : ParsedInput) :
    (Scan.place p parsed).Sound := by
  unfold Scan.place
  dsimp only
  split
  · exact ⟨sound.reached, sound.named, sound.placed⟩
  generalize parsed.input ++ "." ++ parsed.unit.name = path
  have kept : ∀ id, p.tree.isLeaf id = true → (p.tree.createLeaf root path).1.isLeaf id = true :=
    fun id leaf => isLeaf_create .leaf root path leaf
  have grown : (p.tree.createLeaf root path).1.Reachable :=
    .step (.createLeaf root path) sound.reached
  split
  next t problem created =>
    rw [created] at kept grown
    exact ⟨grown, fun entry mem => kept _ (sound.named entry mem),
      fun unit mem => kept _ (sound.placed unit mem)⟩
  next t leaf created =>
    have isLeaf := isLeaf_of_createLeaf_eq_ok created
    rw [created] at kept grown
    refine ⟨grown, ?_, ?_⟩
    · intro entry mem
      dsimp only at mem ⊢
      split at mem
      · exact kept _ (sound.named entry mem)
      · rcases List.mem_append.mp mem with old | new
        · exact kept _ (sound.named entry old)
        · cases List.mem_singleton.mp new
          exact isLeaf
    · intro unit mem
      rcases List.mem_append.mp mem with old | new
      · exact kept _ (sound.placed unit old)
      · cases List.mem_singleton.mp new
        exact isLeaf

theorem Placement.Sound.placeAll {p : Placement} (sound : p.Sound) (units : List ParsedInput) :
    (units.foldl Scan.place p).Sound := by
  induction units generalizing p with
  | nil => exact sound
  | cons parsed units ih => exact ih (sound.place parsed)

/-- A reachable tree with the nodes of another. -/
def Linking.Sound (t : Tree) (l : Linking) : Prop := l.tree.Reachable ∧ SameShape t l.tree

section Links

variable {t : Tree} {byName : List (String × NodeId)} {l : Linking}
  (named : ∀ entry ∈ byName, t.isLeaf entry.2 = true)
include named

theorem Linking.Sound.resolve (sound : l.Sound t) {leaf : NodeId} (isLeaf : t.isLeaf leaf = true)
    (name : String) : (Scan.resolve byName leaf l name).Sound t := by
  obtain ⟨reached, same⟩ := sound
  unfold Scan.resolve
  split
  next target found =>
    obtain ⟨before, after, split, -⟩ := List.lookup_eq_some_iff.mp found
    have source : l.tree.isLeaf leaf = true := by rw [same.isLeaf]; exact isLeaf
    have target_isLeaf : l.tree.isLeaf target = true := by
      rw [same.isLeaf]
      exact named (name, target) (by rw [split]; simp)
    have linked : l.tree.perform (.link leaf target) = l.tree.connect leaf target := by
      simp [perform, link_eq_ok_iff.mpr ⟨source, target_isLeaf, rfl⟩, Except.toOption]
    refine ⟨linked ▸ .step (.link leaf target) reached, ?_⟩
    rcases connect_cases source target_isLeaf with ⟨-, unchanged⟩ | added
    · dsimp only
      rw [unchanged]
      exact same
    · exact same.trans added.shape
  next =>
    have noted : l.tree.perform (.recordMissing leaf name) = l.tree.noteMissing leaf name := by
      simp [perform, recordMissing, same.isLeaf, isLeaf, Except.toOption]
    exact ⟨noted ▸ .step (.recordMissing leaf name) reached,
      same.trans (sameShape_noteMissing leaf name)⟩

theorem Linking.Sound.linkUnit (sound : l.Sound t) (filter : UnitFilter) {unit : PlacedUnit}
    (isLeaf : t.isLeaf unit.leaf = true) : (Scan.linkUnit filter byName l unit).Sound t := by
  unfold Scan.linkUnit
  generalize unit.dependencies.filter _ = names
  induction names generalizing l with
  | nil => exact sound
  | cons name names ih => exact ih (sound.resolve named isLeaf name)

theorem Linking.Sound.linkAll (sound : l.Sound t) (filter : UnitFilter) {units : List PlacedUnit}
    (placed : ∀ unit ∈ units, t.isLeaf unit.leaf = true) :
    (units.foldl (Scan.linkUnit filter byName) l).Sound t := by
  induction units generalizing l with
  | nil => exact sound
  | cons unit units ih =>
    have first := sound.linkUnit named filter (placed unit List.mem_cons_self)
    exact ih first fun unit mem => placed unit (List.mem_cons_of_mem _ mem)

end Links

/-- What is placed in the order of a scan. -/
def placeAll (maxMajor : Nat) (collected : Collected) : Placement :=
  (parseAll maxMajor collected.units).1.foldl place {}

theorem sound_placeAll (maxMajor : Nat) (collected : Collected) :
    (placeAll maxMajor collected).Sound := by
  have empty : Placement.Sound {} := ⟨.empty, by rintro entry ⟨⟩, by rintro unit ⟨⟩⟩
  exact empty.placeAll _

theorem sound_assemble (maxMajor : Nat) (filter : UnitFilter) (collected : Collected) :
    (assemble maxMajor filter collected).2.tree.Reachable ∧
      SameShape (placeAll maxMajor collected).tree
        (assemble maxMajor filter collected).2.tree := by
  have sound := sound_placeAll maxMajor collected
  have start : Linking.Sound (placeAll maxMajor collected).tree
      { tree := (placeAll maxMajor collected).tree } := ⟨sound.reached, .refl _⟩
  exact start.linkAll sound.named filter sound.placed

theorem reachable_assemble (maxMajor : Nat) (filter : UnitFilter) (collected : Collected) :
    (assemble maxMajor filter collected).2.tree.Reachable :=
  (sound_assemble maxMajor filter collected).1

theorem reachable_run {maxMajor : Nat} {source : Source} {request : Request} {project : Project}
    (scanned : (run maxMajor source request).2 = .ok project) : project.tree.Reachable := by
  unfold run at scanned
  split at scanned
  · cases scanned
  · split at scanned
    · cases scanned
    · cases scanned
      exact reachable_assemble _ _ _

end ClassCoupling.Scan
