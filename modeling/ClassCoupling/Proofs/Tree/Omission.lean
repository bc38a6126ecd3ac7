import ClassCoupling.Proofs.Text.NameSet
import ClassCoupling.Proofs.Tree.Likeness
import ClassCoupling.Proofs.Tree.Path

/-!
# Leaving out missing names

A tree without some of its missing names is the same tree in every other way, and leaving them out
goes together with linking and with noting other names.
-/

namespace ClassCoupling.Tree

open Text

variable {t : Tree} {dropped : String → Prop} [DecidablePred dropped]

/-! ## Nodes without some missing names -/

def omitNames (dropped : String → Prop) [DecidablePred dropped] (node : Node) : Node :=
  match node.content with
  | .leaf successors predecessors missing =>
    { node with
      content := .leaf successors predecessors (missing.filter fun name => ¬ dropped name) }
  | .container _ => node

/-- The tree as if nobody had noted certain names. -/
def omitting (t : Tree) (dropped : String → Prop) [DecidablePred dropped] : Tree :=
  { t with nodes := t.nodes.map (omitNames dropped) }

theorem keepsPlace_omitNames : KeepsPlace (omitNames dropped) := by
  constructor <;> rintro ⟨_, _, _, _ | _⟩ <;> rfl

theorem omitNames_addUse (target : NodeId) (node : Node) :
    omitNames dropped (addUse target node) = addUse target (omitNames dropped node) := by
  obtain ⟨_, _, _, _ | _⟩ := node <;> rfl

theorem omitNames_addUser (source : NodeId) (node : Node) :
    omitNames dropped (addUser source node) = addUser source (omitNames dropped node) := by
  obtain ⟨_, _, _, _ | _⟩ := node <;> rfl

theorem omitNames_addMissing_of_dropped {name : String} (omitted : dropped name) (node : Node) :
    omitNames dropped (addMissing name node) = omitNames dropped node := by
  obtain ⟨_, _, _, _ | ⟨_, _, missing⟩⟩ := node
  · rfl
  · simp [omitNames, addMissing, NameSet.filter_insert_of_neg, omitted]

theorem omitNames_addMissing {name : String} (kept : ¬ dropped name) {node : Node}
    (increasing : node.content.missing.Pairwise (· < ·)) :
    omitNames dropped (addMissing name node) = addMissing name (omitNames dropped node) := by
  obtain ⟨_, _, _, _ | ⟨_, _, missing⟩⟩ := node
  · rfl
  · have filtered : (NameSet.insert name missing).filter (fun name => ¬ dropped name) =
        NameSet.insert name (missing.filter fun name => ¬ dropped name) :=
      NameSet.filter_insert_of_pos increasing (decide_eq_true kept)
    simp only [omitNames, addMissing, filtered]

/-! ## Trees without some missing names -/

theorem ext_node? {t t' : Tree} (generation : t.generation = t'.generation)
    (node : ∀ id, t.node? id = t'.node? id) : t = t' := by
  obtain ⟨nodes, _⟩ := t
  obtain ⟨nodes', _⟩ := t'
  have same : nodes = nodes' := Array.ext_getElem? node
  simp_all

theorem node?_omitting (id : NodeId) :
    (t.omitting dropped).node? id = (t.node? id).map (omitNames dropped) := by
  simp [omitting, node?]

theorem sameShape_omitting : SameShape t (t.omitting dropped) :=
  .of_map node?_omitting fun _ => keepsPlace_omitNames

theorem sameLinks_omitting : SameLinks t (t.omitting dropped) := by
  refine .of_map node?_omitting ?_ ?_ <;> rintro id ⟨_, _, _, _ | _⟩ <;> rfl

theorem sameGraph_omitting : SameGraph t (t.omitting dropped) where
  shape := sameShape_omitting
  links := sameLinks_omitting
  root_mode := by
    simp only [Tree.mode, node?_omitting]
    cases t.node? root with
    | none => rfl
    | some node => obtain ⟨_, _, _, _ | _⟩ := node <;> rfl

theorem missing_omitting (id : NodeId) :
    (t.omitting dropped).missing id = (t.missing id).filter fun name => ¬ dropped name := by
  rw [missing_eq, node?_omitting, missing_eq]
  cases t.node? id with
  | none => rfl
  | some node => obtain ⟨_, _, _, _ | _⟩ := node <;> rfl

theorem omitting_eq_self (none : ∀ id, t.missing id = []) : t.omitting dropped = t := by
  refine ext_node? rfl fun id => ?_
  have nothing := none id
  rw [missing_eq] at nothing
  rw [node?_omitting]
  cases found : t.node? id with
  | none => rfl
  | some node =>
    obtain ⟨_, _, _, _ | ⟨_, _, missing⟩⟩ := node
    · rfl
    · rw [found] at nothing
      cases (nothing : missing = [])
      rfl

theorem omitting_connect (source target : NodeId) :
    (t.connect source target).omitting dropped = (t.omitting dropped).connect source target := by
  have uses : (t.omitting dropped).uses source = t.uses source := by rw [sameLinks_omitting.uses]
  by_cases known : target ∈ t.uses source
  · rw [connect, if_pos known, connect, if_pos (by rw [uses]; exact known)]
  · have fresh : target ∉ (t.omitting dropped).uses source := by rw [uses]; exact known
    have generation : ((t.connect source target).omitting dropped).generation =
        ((t.omitting dropped).connect source target).generation := by
      rw [connect, if_neg known, connect, if_neg fresh]
      rfl
    refine ext_node? generation fun id => ?_
    rw [node?_omitting, node?_connect known, node?_connect fresh, node?_omitting, Option.map_map,
      Option.map_map]
    congr 1
    funext node
    simp only [Function.comp_apply]
    split <;> split <;> simp only [omitNames_addUse, omitNames_addUser]

theorem omitting_noteMissing_of_dropped {name : String} (omitted : dropped name) (leaf : NodeId) :
    (t.noteMissing leaf name).omitting dropped = t.omitting dropped := by
  refine ext_node? rfl fun id => ?_
  rw [node?_omitting, node?_noteMissing, node?_omitting, Option.map_map]
  congr 1
  funext node
  simp only [Function.comp_apply]
  split
  · exact omitNames_addMissing_of_dropped omitted node
  · rfl

theorem omitting_noteMissing {name : String} (kept : ¬ dropped name) {leaf : NodeId}
    (increasing : (t.missing leaf).Pairwise (· < ·)) :
    (t.noteMissing leaf name).omitting dropped = (t.omitting dropped).noteMissing leaf name := by
  refine ext_node? rfl fun id => ?_
  rw [node?_omitting, node?_noteMissing, node?_noteMissing, node?_omitting]
  cases found : t.node? id with
  | none => rfl
  | some node =>
    simp only [Option.map_some]
    split
    next here =>
      rw [missing_eq, ← here, found] at increasing
      rw [omitNames_addMissing kept increasing]
    next => rfl

/-! ## The order of missing names -/

theorem Reachable.missing_increasing (reached : t.Reachable) (id : NodeId) :
    (t.missing id).Pairwise (· < ·) := by
  induction reached with
  | empty =>
    rw [missing_eq, node?_empty]
    split <;> exact .nil
  | @step t change reached ih =>
    cases change with
    | createContainer parent path =>
      have same : (t.perform (.createContainer parent path)).missing = t.missing :=
        (extends_createAlong _ _ _ _ _).missing
      rw [same]
      exact ih
    | createLeaf parent path =>
      have same : (t.perform (.createLeaf parent path)).missing = t.missing :=
        (extends_createLeaf t parent path).missing
      rw [same]
      exact ih
    | link source target =>
      rcases t.perform_link source target with same | added
      · rw [same]
        exact ih
      · rw [added.missing]
        exact ih
    | recordMissing leaf name =>
      cases isLeaf : t.isLeaf leaf with
      | false =>
        rw [perform_recordMissing_of_container isLeaf]
        exact ih
      | true =>
        rw [perform_recordMissing_of_isLeaf isLeaf, missing_noteMissing isLeaf]
        split
        next here => exact NameSet.pairwise_insert (here ▸ ih)
        next => exact ih
    | setMode id mode =>
      rw [perform, missing_setMode]
      exact ih

end ClassCoupling.Tree
