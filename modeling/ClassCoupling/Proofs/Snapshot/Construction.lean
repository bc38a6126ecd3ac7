import ClassCoupling.Proofs.Snapshot.Consistent

/-!
# How snapshots come about

A snapshot is made in two rounds: entries are pushed for its nodes, and then arcs are added one by
one between the numbers noted for their ends. Both rounds together have a closed form: the nodes in
the order of the pushes and, of the arcs in the order of the additions, those that stay among them.
-/

namespace ClassCoupling

theorem eraseDups_append_of_subset {α : Type} [BEq α] [LawfulBEq α] {xs more : List α}
    (known : more ⊆ xs) : (xs ++ more).eraseDups = xs.eraseDups := by
  have nothing : more.removeAll xs = [] := by
    simp only [List.removeAll, List.filter_eq_nil_iff]
    intro x mem
    simpa using known mem
  rw [List.eraseDups_append, nothing, List.eraseDups_nil, List.append_nil]

theorem eraseDups_concat_of_not_mem {α : Type} [BEq α] [LawfulBEq α] {xs : List α} {x : α}
    (new : x ∉ xs) : (xs ++ [x]).eraseDups = xs.eraseDups ++ [x] := by
  have all : [x].removeAll xs = [x] := by simp [List.removeAll, new]
  rw [List.eraseDups_append, all]
  rfl

namespace Snapshot

variable {s : Snapshot} {t : Tree} {u v x : NodeId}

section Build

variable {generation : Nat} {nodes : List (NodeId × Nat)} {arcs : List (NodeId × NodeId)}

/-- The arcs that stay among the nodes, each once. -/
def keptArcs (nodes : List (NodeId × Nat)) (arcs : List (NodeId × NodeId)) :
    List (NodeId × NodeId) :=
  (arcs.filter fun arc =>
    arc.1 ∈ (nodes.map (·.1)).eraseDups ∧ arc.2 ∈ (nodes.map (·.1)).eraseDups).eraseDups

theorem lookup_append_of_mem {more : List (NodeId × Nat)} (mem : x ∈ nodes.map (·.1)) :
    (nodes ++ more).lookup x = nodes.lookup x := by
  obtain ⟨pair, given, rfl⟩ := List.mem_map.mp mem
  have found : (nodes.lookup pair.1).isSome = true :=
    List.lookup_isSome_iff.mpr ⟨pair, given, beq_self_eq_true _⟩
  rw [List.lookup_append, Option.or_of_isSome found]

/-- The snapshot of the given nodes and unit counts, with those of the arcs that stay among them.
A repeated node or arc is taken once. -/
def build (generation : Nat) (nodes : List (NodeId × Nat)) (arcs : List (NodeId × NodeId)) :
    Snapshot where
  entries := (nodes.map (·.1)).eraseDups.mapIdx fun index node => {
    node
    index
    units := (nodes.lookup node).getD 0
    successors := ((keptArcs nodes arcs).filter (·.1 = node)).map (·.2)
    predecessors := ((keptArcs nodes arcs).filter (·.2 = node)).map (·.1) }
  positions := (nodes.map (·.1)).eraseDups.mapIdx fun index node => (node, index)
  generation
  numbered := true

@[simp] theorem nodes_build :
    (build generation nodes arcs).nodes = (nodes.map (·.1)).eraseDups := by
  refine List.ext_getElem? fun i => ?_
  simp only [Snapshot.nodes, build, List.getElem?_map, List.getElem?_mapIdx, Option.map_map]
  cases ((nodes.map (·.1)).eraseDups)[i]? <;> rfl

theorem mem_nodes_build : x ∈ (build generation nodes arcs).nodes ↔ x ∈ nodes.map (·.1) := by
  rw [nodes_build, List.mem_eraseDups]

theorem mem_keptArcs : (u, v) ∈ keptArcs nodes arcs ↔
    (u, v) ∈ arcs ∧ u ∈ nodes.map (·.1) ∧ v ∈ nodes.map (·.1) := by
  simp [keptArcs, List.mem_eraseDups]

theorem mem_entries_build {e : Entry} (he : e ∈ (build generation nodes arcs).entries) :
    e.node ∈ nodes.map (·.1) ∧ e.units = (nodes.lookup e.node).getD 0 ∧
      e.successors = ((keptArcs nodes arcs).filter (·.1 = e.node)).map (·.2) ∧
      e.predecessors = ((keptArcs nodes arcs).filter (·.2 = e.node)).map (·.1) := by
  obtain ⟨i, h, rfl⟩ := List.mem_mapIdx.mp he
  exact ⟨List.mem_eraseDups.mp (List.getElem_mem h), rfl, rfl, rfl⟩

theorem mem_nodeArcs_build : (u, v) ∈ (build generation nodes arcs).nodeArcs ↔
    (u, v) ∈ arcs ∧ u ∈ nodes.map (·.1) ∧ v ∈ nodes.map (·.1) := by
  rw [← mem_keptArcs, mem_nodeArcs]
  constructor
  · rintro ⟨e, he, rfl, mem⟩
    obtain ⟨-, -, successors, -⟩ := mem_entries_build he
    rw [successors] at mem
    simpa using mem
  · intro kept
    have listed : u ∈ (build generation nodes arcs).nodes :=
      mem_nodes_build.mpr (mem_keptArcs.mp kept).2.1
    obtain ⟨e, he, rfl⟩ := mem_nodes.mp listed
    obtain ⟨-, -, successors, -⟩ := mem_entries_build he
    refine ⟨e, he, rfl, ?_⟩
    rw [successors]
    simpa using kept

theorem consistent_build : (build generation nodes arcs).Consistent where
  nodes_nodup := by
    rw [nodes_build]
    exact nodup_eraseDups _
  positions_eq := by
    apply List.ext_getElem?
    intro i
    simp [build, Function.comp_def]
  successors_nodup e he := by
    rw [(mem_entries_build he).2.2.1]
    refine List.Nodup.map_on ?_ ((nodup_eraseDups _).filter _)
    rintro ⟨a, b⟩ ha ⟨c, d⟩ hc same
    simp only [List.mem_filter, decide_eq_true_eq] at ha hc
    rw [Prod.mk.injEq]
    exact ⟨ha.2.trans hc.2.symm, same⟩
  predecessors_nodup e he := by
    rw [(mem_entries_build he).2.2.2]
    refine List.Nodup.map_on ?_ ((nodup_eraseDups _).filter _)
    rintro ⟨a, b⟩ ha ⟨c, d⟩ hc same
    simp only [List.mem_filter, decide_eq_true_eq] at ha hc
    rw [Prod.mk.injEq]
    exact ⟨same, ha.2.trans hc.2.symm⟩
  mem_nodes_of_successor e he x mem := by
    rw [mem_nodes_build]
    exact (mem_nodeArcs_build.mp (mem_nodeArcs.mpr ⟨e, he, rfl, mem⟩)).2.2
  mem_predecessors e he x := by
    rw [mem_nodeArcs_build, ← mem_keptArcs, (mem_entries_build he).2.2.2]
    simp
  index_eq _ i e h := by
    simp only [build, List.getElem?_mapIdx, Option.map_eq_some_iff] at h
    obtain ⟨_, -, rfl⟩ := h
    rfl

theorem indexed_build : (build generation nodes arcs).Indexed := ⟨consistent_build, rfl⟩

theorem build_congr {others : List (NodeId × NodeId)}
    (same : keptArcs nodes arcs = keptArcs nodes others) :
    build generation nodes arcs = build generation nodes others := by
  dsimp only [build]
  rw [same]

/-- Of a node given twice the first unit count is taken, of an arc given twice nothing more. -/
theorem build_append_of_subset {more : List (NodeId × Nat)} {others : List (NodeId × NodeId)}
    (listed : more.map (·.1) ⊆ nodes.map (·.1)) (known : others ⊆ arcs) :
    build generation (nodes ++ more) (arcs ++ others) = build generation nodes arcs := by
  have same : ((nodes ++ more).map (·.1)).eraseDups = (nodes.map (·.1)).eraseDups := by
    rw [List.map_append, eraseDups_append_of_subset listed]
  have kept : keptArcs (nodes ++ more) (arcs ++ others) = keptArcs nodes arcs := by
    rw [keptArcs, same, List.filter_append,
      eraseDups_append_of_subset (List.filter_subset _ known), keptArcs]
  dsimp only [build]
  rw [same, kept]
  congr 1
  apply List.mapIdx_eq_mapIdx_iff.mpr
  intro index bound
  have mem := List.mem_eraseDups.mp (List.getElem_mem bound)
  rw [lookup_append_of_mem mem]

/-! ## Pushing nodes -/

theorem push_build (node : NodeId) (units : Nat) :
    (build generation nodes []).push node units =
      build generation (nodes ++ [(node, units)]) [] := by
  have listed : (build generation nodes []).contains node = true ↔ node ∈ nodes.map (·.1) :=
    consistent_build.contains_iff.trans mem_nodes_build
  by_cases known : node ∈ nodes.map (·.1)
  · rw [push, if_pos (listed.mpr known)]
    have same : build generation (nodes ++ [(node, units)]) ([] ++ []) =
        build generation nodes [] :=
      build_append_of_subset (by simpa using known) (List.Subset.refl [])
    exact same.symm
  · rw [push, if_neg (mt listed.mp known)]
    have kept : ((nodes ++ [(node, units)]).map (·.1)).eraseDups =
        (nodes.map (·.1)).eraseDups ++ [node] := by
      rw [List.map_append]
      exact eraseDups_concat_of_not_mem known
    have noted : (build generation nodes []).positions.remove node =
        (build generation nodes []).positions := by
      apply List.filter_eq_self.mpr
      intro position mem
      obtain ⟨i, bound, rfl⟩ := List.mem_mapIdx.mp mem
      have other := List.mem_eraseDups.mp (List.getElem_mem bound)
      exact decide_eq_true fun same => known (same ▸ other)
    have size : (build generation nodes []).size = (nodes.map (·.1)).eraseDups.length :=
      List.length_mapIdx
    rw [Positions.note, noted, size]
    dsimp only [build]
    rw [kept, List.mapIdx_concat, List.mapIdx_concat]
    congr 2
    · apply List.mapIdx_eq_mapIdx_iff.mpr
      intro index bound
      rw [lookup_append_of_mem (List.mem_eraseDups.mp (List.getElem_mem bound))]
      rfl
    · have fresh : nodes.lookup node = none := by
        rw [← Option.not_isSome_iff_eq_none, List.lookup_isSome_iff]
        rintro ⟨pair, given, same⟩
        exact known (List.mem_map.mpr ⟨pair, given, (eq_of_beq same).symm⟩)
      simp [keptArcs, List.lookup_append, fresh]

theorem pushAll_build (nodes more : List (NodeId × Nat)) :
    (build generation nodes []).pushAll more = build generation (nodes ++ more) [] := by
  induction more generalizing nodes with
  | nil => simp [pushAll]
  | cons pair more ih =>
    rw [pushAll, List.foldl_cons, push_build]
    refine (ih _).trans ?_
    simp

theorem pushAll_blank (pairs : List (NodeId × Nat)) :
    (blank generation).pushAll pairs = build generation pairs [] :=
  pushAll_build [] pairs

/-! ## Adding arcs -/

theorem keptArcs_concat (source : u ∈ nodes.map (·.1)) (target : v ∈ nodes.map (·.1))
    (new : (u, v) ∉ keptArcs nodes arcs) :
    keptArcs nodes (arcs ++ [(u, v)]) = keptArcs nodes arcs ++ [(u, v)] := by
  have inside : [(u, v)].filter (fun arc => arc.1 ∈ (nodes.map (·.1)).eraseDups ∧
      arc.2 ∈ (nodes.map (·.1)).eraseDups) = [(u, v)] := by
    simp [List.mem_eraseDups.mpr source, List.mem_eraseDups.mpr target]
  rw [keptArcs, List.filter_append, inside, eraseDups_concat_of_not_mem, keptArcs]
  rwa [keptArcs, List.mem_eraseDups] at new

theorem changeArc_adjoin_build (source : u ∈ nodes.map (·.1)) (target : v ∈ nodes.map (·.1))
    (new : (u, v) ∉ keptArcs nodes arcs) :
    (build generation nodes arcs).changeArc adjoin u v =
      build generation nodes (arcs ++ [(u, v)]) := by
  dsimp only [changeArc, build]
  rw [keptArcs_concat source target new]
  congr 1
  apply List.ext_getElem?
  intro index
  simp only [List.getElem?_map, List.getElem?_mapIdx, Option.map_map]
  congr 1
  funext node
  simp only [Function.comp_apply, List.filter_append, List.map_append]
  congr 1
  · by_cases here : node = u
    · simp [here, adjoin, new]
    · simp [here, Ne.symm here]
  · by_cases here : node = v
    · simp [here, adjoin, new]
    · simp [here, Ne.symm here]

/-- Adding an arc between two places is building with one more arc between the nodes there. -/
theorem edited_addArc_build {i j : Nat} (source : (build generation nodes arcs).nodes[i]? = some u)
    (target : (build generation nodes arcs).nodes[j]? = some v) :
    (build generation nodes arcs).edited ((build generation nodes arcs).addArc i j) =
      build generation nodes (arcs ++ [(u, v)]) := by
  have inside : u ∈ nodes.map (·.1) ∧ v ∈ nodes.map (·.1) :=
    ⟨mem_nodes_build.mp (List.mem_of_getElem? source),
      mem_nodes_build.mp (List.mem_of_getElem? target)⟩
  obtain ⟨e, atI, rfl⟩ := getElem?_nodes.mp source
  obtain ⟨f, atJ, rfl⟩ := getElem?_nodes.mp target
  have known : f.node ∈ e.successors ↔ (e.node, f.node) ∈ arcs := by
    rw [consistent_build.mem_successors (List.mem_of_getElem? atI), mem_nodeArcs_build]
    simp [inside]
  by_cases present : f.node ∈ e.successors
  · have same : build generation (nodes ++ []) (arcs ++ [(e.node, f.node)]) =
        build generation nodes arcs :=
      build_append_of_subset (by simp) (by simpa using known.mp present)
    rw [List.append_nil] at same
    rw [same]
    simp [addArc, entryAt, atI, atJ, present, edited, bind, Except.bind, pure, Except.pure]
  · rw [← changeArc_adjoin_build inside.1 inside.2 fun kept =>
        present (known.mpr (mem_keptArcs.mp kept).1),
      ← updateArc_eq_changeArc consistent_build.nodes_nodup atI atJ]
    simp [addArc, entryAt, atI, atJ, present, edited, bind, Except.bind, pure, Except.pure]

/-- Arcs that lead out of the nodes are not taken. -/
theorem build_append_of_outside {others : List (NodeId × NodeId)}
    (outside : ∀ arc ∈ others, ¬ (arc.1 ∈ nodes.map (·.1) ∧ arc.2 ∈ nodes.map (·.1))) :
    build generation nodes (arcs ++ others) = build generation nodes arcs := by
  have nothing : others.filter (fun arc => arc.1 ∈ (nodes.map (·.1)).eraseDups ∧
      arc.2 ∈ (nodes.map (·.1)).eraseDups) = [] := by
    apply List.filter_eq_nil_iff.mpr
    intro arc mem
    simpa only [List.mem_eraseDups, decide_eq_true_eq] using outside arc mem
  apply build_congr
  rw [keptArcs, List.filter_append, nothing, List.append_nil, keptArcs]

theorem not_mem_of_lookup_eq_none (noted : (build generation nodes arcs).positions.lookup x = none) :
    x ∉ nodes.map (·.1) := by
  intro mem
  have here : (build generation nodes arcs).contains x = true :=
    consistent_build.contains_iff.mpr (mem_nodes_build.mpr mem)
  rw [contains, noted] at here
  cases here

theorem linkTo_build {i : Nat} (source : (build generation nodes arcs).nodes[i]? = some u)
    (target : NodeId) :
    (build generation nodes arcs).linkTo i target = build generation nodes (arcs ++ [(u, target)]) := by
  unfold linkTo
  cases noted : (build generation nodes arcs).positions.lookup target with
  | some j => exact edited_addArc_build source (indexed_build.lookup_eq_some_iff.mp noted)
  | none =>
    refine (build_append_of_outside ?_).symm
    rintro _ mem ⟨-, inside⟩
    obtain rfl := List.mem_singleton.mp mem
    exact not_mem_of_lookup_eq_none noted inside

theorem foldl_linkTo_build {i : Nat} (source : (nodes.map (·.1)).eraseDups[i]? = some u)
    (targets : List NodeId) :
    targets.foldl (linkTo i) (build generation nodes arcs) =
      build generation nodes (arcs ++ targets.map fun target => (u, target)) := by
  induction targets generalizing arcs with
  | nil => simp
  | cons target targets ih =>
    rw [List.foldl_cons, linkTo_build (nodes_build ▸ source), ih]
    simp

theorem copyEntry_build (entry : Entry) :
    (build generation nodes arcs).copyEntry entry =
      build generation nodes (arcs ++ entry.successors.map fun target => (entry.node, target)) := by
  unfold copyEntry
  cases noted : (build generation nodes arcs).positions.lookup entry.node with
  | some i =>
    have place := indexed_build.lookup_eq_some_iff.mp noted
    exact foldl_linkTo_build (nodes_build ▸ place) _
  | none =>
    refine (build_append_of_outside ?_).symm
    rintro _ mem ⟨inside, -⟩
    obtain ⟨_, -, rfl⟩ := List.mem_map.mp mem
    exact not_mem_of_lookup_eq_none noted inside

/-- Copying arcs is building with those arcs as well. -/
theorem copyArcs_build (source : Snapshot) :
    copyArcs source (build generation nodes arcs) =
      build generation nodes (arcs ++ source.nodeArcs) := by
  unfold copyArcs nodeArcs
  induction source.entries generalizing arcs with
  | nil => simp
  | cons entry entries ih =>
    rw [List.foldl_cons, copyEntry_build, ih]
    simp

/-! ## The closed forms -/

theorem restrict_eq_build (s : Snapshot) (entries : List Entry) :
    s.restrict entries = build s.generation (unitCounts entries) s.nodeArcs := by
  rw [restrict, pushAll_blank, copyArcs_build, List.nil_append]

theorem foldl_pushAll_build (generation : Nat) (nodes : List (NodeId × Nat))
    (parts : List Snapshot) :
    parts.foldl (fun joined s => joined.pushAll (unitCounts s.entries)) (build generation nodes []) =
      build generation (nodes ++ parts.flatMap fun s => unitCounts s.entries) [] := by
  induction parts generalizing nodes with
  | nil => simp
  | cons s parts ih =>
    rw [List.foldl_cons, pushAll_build, ih]
    simp

theorem foldl_copyArcs_build (arcs : List (NodeId × NodeId)) (parts : List Snapshot) :
    parts.foldl (fun joined s => copyArcs s joined) (build generation nodes arcs) =
      build generation nodes (arcs ++ parts.flatMap nodeArcs) := by
  induction parts generalizing arcs with
  | nil => simp
  | cons s parts ih =>
    rw [List.foldl_cons, copyArcs_build, ih]
    simp

theorem union_eq_build (snapshots : List Snapshot) :
    union snapshots = build ((snapshots.map (·.generation)).foldl max 0)
      (snapshots.flatMap fun s => unitCounts s.entries) (snapshots.flatMap nodeArcs) := by
  have pushed := foldl_pushAll_build ((snapshots.map (·.generation)).foldl max 0) [] snapshots
  rw [List.nil_append] at pushed
  unfold union
  exact (congrArg (snapshots.foldl fun joined s => copyArcs s joined) pushed).trans
    (foldl_copyArcs_build [] snapshots)

theorem linkShown_build {i : Nat} (t : Tree) (source : (nodes.map (·.1)).eraseDups[i]? = some u) :
    (build generation nodes arcs).linkShown t i =
      build generation nodes (arcs ++ (t.successors u).map fun target => (u, target)) := by
  have place : (build generation nodes arcs).nodes[i]? = some u := nodes_build ▸ source
  obtain ⟨e, found, rfl⟩ := getElem?_nodes.mp place
  rw [linkShown, found]
  exact foldl_linkTo_build source _

theorem ofNodes_eq_build (t : Tree) (nodes : List NodeId) :
    ofNodes t nodes = build t.generation (nodes.map fun node => (node, t.unitCount node))
      (nodes.eraseDups.flatMap fun node => (t.successors node).map fun target => (node, target)) := by
  have kept : ((nodes.map fun node => (node, t.unitCount node)).map (·.1)).eraseDups =
      nodes.eraseDups := by simp [Function.comp_def]
  -- After so many rounds the arcs of as many nodes are in.
  have rounds : ∀ k ≤ nodes.eraseDups.length,
      (List.range k).foldl (linkShown t)
          (build t.generation (nodes.map fun node => (node, t.unitCount node)) []) =
        build t.generation (nodes.map fun node => (node, t.unitCount node))
          ((nodes.eraseDups.take k).flatMap fun node =>
            (t.successors node).map fun target => (node, target)) := by
    intro k
    induction k with
    | zero => intro _; rfl
    | succ k ih =>
      intro bound
      have here : nodes.eraseDups[k]? = some nodes.eraseDups[k] := List.getElem?_eq_getElem bound
      have place := (congrArg (fun nodes : List NodeId => nodes[k]?) kept).trans here
      rw [List.range_succ, List.foldl_append, ih (Nat.le_of_succ_le bound), List.foldl_cons,
        List.foldl_nil, linkShown_build t place, List.take_add_one, here]
      simp only [Option.toList_some, List.flatMap_append, List.flatMap_singleton]
  have size : (build t.generation (nodes.map fun node => (node, t.unitCount node)) []).size =
      nodes.eraseDups.length := by
    rw [← kept]
    exact List.length_mapIdx
  unfold ofNodes
  rw [pushAll_blank]
  dsimp only
  rw [size, rounds _ (Nat.le_refl _), List.take_length]

end Build

theorem indexed_ofNodes (t : Tree) (nodes : List NodeId) : (ofNodes t nodes).Indexed := by
  rw [ofNodes_eq_build]
  exact indexed_build

theorem nodes_ofNodes (t : Tree) (nodes : List NodeId) :
    (ofNodes t nodes).nodes = nodes.eraseDups := by
  rw [ofNodes_eq_build, nodes_build]
  simp [Function.comp_def]

@[simp] theorem generation_ofNodes (t : Tree) (nodes : List NodeId) :
    (ofNodes t nodes).generation = t.generation := by
  rw [ofNodes_eq_build, build]

theorem indexed_ofTree (t : Tree) : (ofTree t).Indexed := indexed_ofNodes t _

@[simp] theorem generation_ofTree (t : Tree) : (ofTree t).generation = t.generation :=
  generation_ofNodes t _

/-! ## Restricting -/

theorem indexed_restrict (s : Snapshot) (entries : List Entry) : (s.restrict entries).Indexed := by
  rw [restrict_eq_build]
  exact indexed_build

@[simp] theorem generation_restrict (s : Snapshot) (entries : List Entry) :
    (s.restrict entries).generation = s.generation := by
  rw [restrict_eq_build, build]

theorem nodes_restrict (s : Snapshot) (entries : List Entry) :
    (s.restrict entries).nodes = (entries.map (·.node)).eraseDups := by
  rw [restrict_eq_build, nodes_build, unitCounts, List.map_map]
  rfl

theorem mem_nodes_restrict {entries : List Entry} :
    x ∈ (s.restrict entries).nodes ↔ ∃ e ∈ entries, e.node = x := by
  rw [nodes_restrict, List.mem_eraseDups, List.mem_map]

theorem mem_nodeArcs_restrict {entries : List Entry} :
    (u, v) ∈ (s.restrict entries).nodeArcs ↔
      (u, v) ∈ s.nodeArcs ∧ (∃ e ∈ entries, e.node = u) ∧ ∃ e ∈ entries, e.node = v := by
  rw [restrict_eq_build, mem_nodeArcs_build]
  simp [unitCounts]

/-! ## Copies -/

theorem Consistent.nodeArcs_nodup (consistent : s.Consistent) : s.nodeArcs.Nodup :=
  nodup_pairs consistent.nodes_nodup consistent.successors_nodup

/-- A copy numbers the entries anew and lists predecessors in the order of the arcs. -/
theorem Consistent.entries_restrict_self (consistent : s.Consistent) :
    (s.restrict s.entries).entries = s.entries.mapIdx fun index e =>
      { e with index, predecessors := (s.nodeArcs.filter (·.2 = e.node)).map (·.1) } := by
  have nodes_eq : ((unitCounts s.entries).map (·.1)).eraseDups = s.nodes := by
    rw [unitCounts, List.map_map]
    exact eraseDups_eq_self consistent.nodes_nodup
  have arcs_eq : keptArcs (unitCounts s.entries) s.nodeArcs = s.nodeArcs := by
    rw [keptArcs, nodes_eq, List.filter_eq_self.mpr, eraseDups_eq_self consistent.nodeArcs_nodup]
    rintro ⟨u, v⟩ arc
    simpa using ⟨source_mem arc, consistent.target_mem arc⟩
  have successors_eq : ∀ e ∈ s.entries,
      (s.nodeArcs.filter (·.1 = e.node)).map (·.2) = e.successors := by
    intro e listed
    rw [nodeArcs, filter_pairs consistent.nodes_nodup listed]
    simp [Function.comp_def]
  rw [restrict_eq_build]
  apply List.ext_getElem?
  intro i
  dsimp only [build]
  rw [nodes_eq, arcs_eq]
  simp only [List.getElem?_mapIdx, nodes, List.getElem?_map]
  cases found : s.entries[i]? with
  | none => rfl
  | some e =>
    have listed : e ∈ s.entries := List.mem_of_getElem? found
    have units : (unitCounts s.entries).lookup e.node = some e.units :=
      lookup_pairs _ consistent.nodes_nodup listed
    simp only [Option.map_some, units, Option.getD_some]
    rw [successors_eq e listed]

/-- A numbered snapshot that lists predecessors in the order of its arcs is its own copy. -/
theorem Consistent.restrict_self (consistent : s.Consistent) (numbered : s.numbered = true)
    (grouped : ∀ e ∈ s.entries, e.predecessors = (s.nodeArcs.filter (·.2 = e.node)).map (·.1)) :
    s.restrict s.entries = s := by
  have entries_eq : (s.restrict s.entries).entries = s.entries := by
    apply List.ext_getElem?
    intro i
    rw [consistent.entries_restrict_self, List.getElem?_mapIdx]
    cases found : s.entries[i]? with
    | none => rfl
    | some e =>
      have index := consistent.index_eq numbered i e found
      rw [Option.map_some, ← grouped e (List.mem_of_getElem? found), ← index]
  have positions_eq : (s.restrict s.entries).positions = s.positions := by
    rw [(indexed_restrict s s.entries).positions_eq, entries_eq, consistent.positions_eq]
  rw [restrict_eq_build] at entries_eq positions_eq ⊢
  obtain ⟨entries, positions, generation, _⟩ := s
  cases numbered
  exact congr (congrArg (Snapshot.mk · · generation true) entries_eq) positions_eq

/-- The same nodes in the same order with the same arcs, numbered. -/
structure IsCopyOf (copy s : Snapshot) : Prop where
  generation : copy.generation = s.generation
  numbered : copy.numbered = true
  size : copy.size = s.size
  entry : ∀ (i : Nat) (e : Entry), s.entries[i]? = some e →
    ∃ copied, copy.entries[i]? = some copied ∧ copied.node = e.node ∧ copied.index = i ∧
      copied.units = e.units ∧ copied.successors = e.successors ∧
      copied.predecessors.Perm e.predecessors

theorem Consistent.predecessors_perm (consistent : s.Consistent) {e : Entry}
    (listed : e ∈ s.entries) :
    ((s.nodeArcs.filter (·.2 = e.node)).map (·.1)).Perm e.predecessors := by
  have nodup : ((s.nodeArcs.filter (·.2 = e.node)).map (·.1)).Nodup := by
    refine List.Nodup.map_on ?_ (consistent.nodeArcs_nodup.filter _)
    intro a ha b hb same
    simp only [List.mem_filter, decide_eq_true_eq] at ha hb
    exact Prod.ext same (ha.2.trans hb.2.symm)
  apply (List.perm_ext_iff_of_nodup nodup (consistent.predecessors_nodup e listed)).mpr
  intro x
  rw [consistent.mem_predecessors e listed]
  simp

theorem Consistent.restrict_isCopyOf (consistent : s.Consistent) :
    (s.restrict s.entries).IsCopyOf s where
  generation := generation_restrict s s.entries
  numbered := (indexed_restrict s s.entries).numbered
  size := by rw [size, consistent.entries_restrict_self, List.length_mapIdx]
  entry i e found := by
    rw [consistent.entries_restrict_self, List.getElem?_mapIdx, found]
    exact ⟨_, rfl, rfl, rfl, rfl, rfl, consistent.predecessors_perm (List.mem_of_getElem? found)⟩

theorem nodeArcs_build (generation : Nat) (nodes : List (NodeId × Nat))
    (arcs : List (NodeId × NodeId)) :
    (build generation nodes arcs).nodeArcs =
      (nodes.map (·.1)).eraseDups.flatMap fun node =>
        (keptArcs nodes arcs).filter (·.1 = node) := by
  unfold nodeArcs
  rw [List.flatMap_def, List.flatMap_def]
  congr 1
  apply List.ext_getElem?
  intro i
  simp only [build, List.getElem?_map, List.getElem?_mapIdx, Option.map_map]
  congr 1
  funext node
  simp only [Function.comp_apply, List.map_map]
  conv_rhs => rw [← List.map_id ((keptArcs nodes arcs).filter (·.1 = node))]
  apply List.map_congr_left
  intro arc mem
  have source := (List.mem_filter.mp mem).2
  simp only [decide_eq_true_eq] at source
  exact Prod.ext source.symm rfl

/-- Arcs that are given node by node are kept in that order. -/
theorem nodeArcs_build_pairs (generation : Nat) (nodes : List (NodeId × Nat))
    (f : NodeId → List NodeId) (nodup : ∀ node, (f node).Nodup) :
    let arcs := (nodes.map (·.1)).eraseDups.flatMap fun node => (f node).map fun v => (node, v)
    (build generation nodes arcs).nodeArcs = keptArcs nodes arcs := by
  intro arcs
  have distinct : ((nodes.map (·.1)).eraseDups.map id).Nodup := by
    rw [List.map_id]
    exact nodup_eraseDups _
  have kept : keptArcs nodes arcs = (nodes.map (·.1)).eraseDups.flatMap fun node =>
      ((f node).filter fun v => v ∈ (nodes.map (·.1)).eraseDups).map fun v => (node, v) := by
    have filtered : (arcs.filter fun arc =>
        arc.1 ∈ (nodes.map (·.1)).eraseDups ∧ arc.2 ∈ (nodes.map (·.1)).eraseDups) =
        (nodes.map (·.1)).eraseDups.flatMap fun node =>
          ((f node).filter fun v => v ∈ (nodes.map (·.1)).eraseDups).map fun v => (node, v) := by
      rw [List.filter_flatMap]
      apply List.flatMap_congr
      intro node listed
      rw [List.filter_map]
      simp [Function.comp_def, List.mem_eraseDups.mp listed]
    rw [keptArcs, filtered]
    exact eraseDups_eq_self (nodup_pairs distinct fun node _ => (nodup node).filter _)
  rw [nodeArcs_build, kept]
  apply List.flatMap_congr
  intro node listed
  exact filter_pairs distinct listed

end Snapshot

end ClassCoupling
