import ClassCoupling.Proofs.Tree.Omission

/-!
# What the generation counts

A change leaves the tree as it was, or is counted, or notes a missing name. The last kind is the
only one that the generation does not tell: it stays where it is although the tree is another one.
Nothing lowers the generation, so that a tree with an old generation looks as it did then.
-/

namespace ClassCoupling.Tree

variable {t : Tree}

/-! ## One change -/

theorem generation_noteMissing (leaf : NodeId) (name : String) :
    (t.noteMissing leaf name).generation = t.generation :=
  rfl

theorem noteMissing_eq_self {leaf : NodeId} {name : String}
    (increasing : (t.missing leaf).Pairwise (· < ·)) (known : name ∈ t.missing leaf) :
    t.noteMissing leaf name = t := by
  refine ext_node? rfl fun id => ?_
  rw [node?_noteMissing]
  cases found : t.node? id with
  | none => rfl
  | some node =>
    by_cases here : id = leaf
    · obtain ⟨_, _, _, _ | ⟨_, _, missing⟩⟩ := node
      · simp [here, addMissing]
      · subst here
        simp only [missing_eq, found, Option.elim_some, Content.missing] at increasing known
        simp [addMissing, Text.NameSet.insert_eq_self increasing known]
    · simp [here]

/-- A creation that changes anything adds nodes, and counts them, even if it fails. -/
theorem create_counts (kind : NodeKind) (parent : NodeId) (path : String) :
    (t.create kind parent path).1 = t ∨
      t.generation < (t.create kind parent path).1.generation ∧
        t.size < (t.create kind parent path).1.size := by
  apply create_induction (P := fun grown =>
    grown = t ∨ t.generation < grown.generation ∧ t.size < grown.size)
  · intro before after _ _ _ so_far _ added
    have generation := added.generation
    have size := added.size
    cases so_far with
    | inl same =>
      subst same
      exact .inr ⟨by omega, by omega⟩
    | inr more => exact .inr ⟨by omega, by omega⟩
  · exact .inl rfl

/-- What comes of a change. -/
inductive Outcome (t : Tree) (change : Change) : Prop where
  | nothing (same : t.perform change = t)
  | counted (later : t.generation < (t.perform change).generation)
      (other : (t.perform change).nodes ≠ t.nodes)
      (missing : (t.perform change).missing = t.missing)
  | noted (leaf : NodeId) (name : String) (asked : change = .recordMissing leaf name)
      (isLeaf : t.isLeaf leaf = true) (new : name ∉ t.missing leaf)
      (performed : t.perform change = t.noteMissing leaf name)

theorem outcome_create {change : Change} (kind : NodeKind) (parent : NodeId) (path : String)
    (performed : t.perform change = (t.create kind parent path).1) : Outcome t change := by
  cases create_counts (t := t) kind parent path with
  | inl same => exact .nothing (performed.trans same)
  | inr more =>
    refine .counted (performed ▸ more.1) ?_ (performed ▸ (extends_createAlong _ _ _ _ _).missing)
    intro same
    have sizes : (t.create kind parent path).1.size = t.size := performed ▸ congrArg Array.size same
    omega

theorem outcome_link (source target : NodeId) : Outcome t (.link source target) := by
  cases t.perform_link source target with
  | inl same => exact .nothing same
  | inr added =>
    refine .counted (added.generation ▸ Nat.lt_succ_self _) ?_ added.missing
    intro same
    have uses : (t.perform (.link source target)).uses source = t.uses source := by
      simp only [uses_eq, node?, same]
    simp [added.uses] at uses

theorem outcome_setMode (id : NodeId) (mode : ListMode) : Outcome t (.setMode id mode) := by
  by_cases known : t.mode id = mode
  · exact .nothing (congrArg Prod.fst (setMode_of_eq known))
  by_cases present : id < t.size
  · have generation := (setMode_of_ne present known).2
    refine .counted (Nat.lt_of_lt_of_eq (Nat.lt_succ_self _) generation.symm) ?_
      (missing_setMode id mode)
    intro same
    obtain ⟨node, found⟩ := Option.isSome_iff_exists.mp (node?_isSome_of_lt present)
    have modes : (t.setMode id mode).1.mode id = t.mode id := by
      simp only [Tree.mode, node?, ← same, perform]
    simp [Tree.mode, node?_setMode, found] at modes known
    exact known modes.symm
  · have absent : t.node? id = none := node?_eq_none (Nat.le_of_not_lt present)
    exact .nothing (by simp [perform, setMode, absent])

theorem Reachable.outcome (reached : t.Reachable) (change : Change) : Outcome t change := by
  cases change with
  | createContainer parent path => exact outcome_create .container parent path rfl
  | createLeaf parent path => exact outcome_create .leaf parent path rfl
  | link source target => exact outcome_link source target
  | recordMissing leaf name =>
    cases isLeaf : t.isLeaf leaf with
    | false => exact .nothing (perform_recordMissing_of_container isLeaf name)
    | true =>
      have performed := perform_recordMissing_of_isLeaf isLeaf name
      by_cases known : name ∈ t.missing leaf
      · have increasing := reached.missing_increasing leaf
        exact .nothing (performed.trans (noteMissing_eq_self increasing known))
      · exact .noted leaf name rfl isLeaf known performed
  | setMode id mode => exact outcome_setMode id mode

theorem missing_ne_of_new {leaf : NodeId} {name : String} (isLeaf : t.isLeaf leaf = true)
    (new : name ∉ t.missing leaf) : (t.perform (.recordMissing leaf name)).missing ≠ t.missing := by
  intro same
  have noted : name ∈ (t.perform (.recordMissing leaf name)).missing leaf := by
    simp [perform_recordMissing_of_isLeaf isLeaf, missing_noteMissing isLeaf]
  exact new (same ▸ noted)

/-- The generation tells every change but that of a missing name, which it never tells. -/
theorem generation_tells_all_but_missing (reached : t.Reachable) (change : Change) :
    ((t.perform change).missing = t.missing →
      ((t.perform change).generation = t.generation ↔ (t.perform change).nodes = t.nodes)) ∧
    ((t.perform change).missing ≠ t.missing →
      (t.perform change).generation = t.generation ∧ (t.perform change).nodes ≠ t.nodes) ∧
    ((t.perform change).missing ≠ t.missing ↔
      ∃ leaf name, change = .recordMissing leaf name ∧ t.isLeaf leaf = true ∧
        name ∉ t.missing leaf) := by
  have named : (∃ leaf name, change = .recordMissing leaf name ∧ t.isLeaf leaf = true ∧
      name ∉ t.missing leaf) → (t.perform change).missing ≠ t.missing := by
    intro asked
    obtain ⟨leaf, name, rfl, isLeaf, new⟩ := asked
    exact missing_ne_of_new isLeaf new
  cases reached.outcome change with
  | nothing same =>
    have kept : (t.perform change).missing = t.missing := congrArg missing same
    refine ⟨fun _ => ?_, fun other => absurd kept other, fun other => absurd kept other, named⟩
    simp [same]
  | counted later other kept =>
    refine ⟨fun _ => ?_, fun changed => absurd kept changed, fun changed => absurd kept changed,
      named⟩
    exact ⟨fun same => absurd same (Nat.ne_of_gt later), fun same => absurd same other⟩
  | noted leaf name asked isLeaf new performed =>
    have changed := named ⟨leaf, name, asked, isLeaf, new⟩
    refine ⟨fun kept => absurd kept changed, fun _ => ⟨?_, ?_⟩, ?_, named⟩
    · exact (congrArg generation performed).trans (generation_noteMissing leaf name)
    · intro same
      apply changed
      funext id
      simp only [missing_eq, node?, same]
    · exact fun _ => ⟨leaf, name, asked, isLeaf, new⟩

/-- A package with one unit. -/
def singleton : Tree := empty.perform (.createLeaf root "p.Unit")

theorem generation_tells_all_but_missing_singleton :
    singleton.Reachable ∧
    (singleton.createLeaf root "p.q.").2 = .error (.structural "p.q." "empty name segment") ∧
    ((singleton.perform (.createLeaf root "p.q.")).generation = singleton.generation ↔
      (singleton.perform (.createLeaf root "p.q.")).nodes = singleton.nodes) ∧
    (singleton.perform (.createLeaf root "p.q.")).generation = singleton.generation + 1 := by
  have reached : singleton.Reachable := .step _ .empty
  obtain ⟨told, -, named⟩ :=
    generation_tells_all_but_missing reached (.createLeaf root "p.q.")
  have kept : (singleton.perform (.createLeaf root "p.q.")).missing = singleton.missing := by
    by_contra changed
    obtain ⟨leaf, name, asked, -⟩ := named.mp changed
    cases asked
  exact ⟨reached, by decide +kernel, told kept, by decide +kernel⟩

/-- A missing name makes another tree of the same generation. -/
theorem missing_name_is_not_counted :
    singleton.Reachable ∧ singleton.recordMissing 2 "org.junit.Test" =
      .ok (singleton.perform (.recordMissing 2 "org.junit.Test")) ∧
    (singleton.perform (.recordMissing 2 "org.junit.Test")).generation = singleton.generation ∧
    (singleton.perform (.recordMissing 2 "org.junit.Test")).nodes ≠ singleton.nodes := by
  refine ⟨.step _ .empty, ?_, ?_, ?_⟩ <;> decide +kernel

/-! ## Runs of changes -/

theorem mode_noteMissing (leaf : NodeId) (name : String) :
    (t.noteMissing leaf name).mode = t.mode := by
  funext id
  simp only [Tree.mode, node?_noteMissing]
  cases t.node? id with
  | none => rfl
  | some node =>
    obtain ⟨_, _, _, _ | _⟩ := node <;> by_cases here : id = leaf <;> simp [here, addMissing]

theorem alike_noteMissing (leaf : NodeId) (name : String) : Alike t (t.noteMissing leaf name) :=
  ⟨sameShape_noteMissing leaf name, sameLinks_noteMissing leaf name,
    fun id _ => congrFun (mode_noteMissing leaf name) id⟩

/-- A change that is not counted leaves the tree looking as it was. -/
theorem Outcome.later_or_alike {change : Change} (outcome : Outcome t change) :
    t.generation < (t.perform change).generation ∨
      (t.perform change).generation = t.generation ∧ Alike t (t.perform change) := by
  cases outcome with
  | nothing same => exact .inr ⟨congrArg generation same, same.symm ▸ .refl t⟩
  | counted later => exact .inl later
  | noted leaf name _ _ _ performed =>
    have generation := (congrArg generation performed).trans (generation_noteMissing leaf name)
    exact .inr ⟨generation, performed ▸ alike_noteMissing leaf name⟩

theorem Reachable.generation_le (reached : t.Reachable) (changes : List Change) :
    t.generation ≤ (changes.foldl perform t).generation := by
  induction changes generalizing t with
  | nil => exact Nat.le_refl _
  | cons change changes ih =>
    have rest := ih (.step change reached)
    cases (reached.outcome change).later_or_alike with
    | inl later => exact Nat.le_trans (Nat.le_of_lt later) rest
    | inr same => exact Nat.le_trans (Nat.le_of_eq same.1.symm) rest

/-- A run that ends at the generation it began with has counted nothing on the way. -/
theorem Reachable.alike_of_generation_eq (reached : t.Reachable) (changes : List Change)
    (same : (changes.foldl perform t).generation = t.generation) :
    Alike t (changes.foldl perform t) := by
  induction changes generalizing t with
  | nil => exact .refl t
  | cons change changes ih =>
    have rest : (t.perform change).generation ≤ t.generation :=
      ((Reachable.step change reached).generation_le changes).trans_eq same
    cases (reached.outcome change).later_or_alike with
    | inl later => exact absurd rest (Nat.not_le.mpr later)
    | inr step => exact step.2.trans (ih (.step change reached) (same.trans step.1.symm))

end ClassCoupling.Tree
