import Mathlib
import Tangible.Proofs.Graph.Change
import Tangible.Proofs.Graph.Layout

/-!
# What the shapes are

A star has one edge from its center to each other node (`IsStar`), a chain connects a listing of all
nodes from one to the next (`IsChain`), and a trunk tree has one way from its origin to every node,
with at most one edge at the origin (`IsTrunk`).

The graph is only asked for numbers: how many nodes and edges there are, how many edges arrive and
leave, how many nodes a walk visits. The count of the edges and the only node that nothing leads to
say that one edge arrives at each node but this one (`rooted_iff`), and all three shapes have this
in common. With it the remaining numbers say what is left of each shape, so an anchor is found if
and only if the graph has the shape around it (`anchor?_decides`).
-/

namespace Tangible.Graph

variable {N E : Type} {g : Graph N E} {origin id : NodeId}

/-! ## The shapes -/

/-- The two ends of every edge. -/
def arrows (g : Graph N E) : List (NodeId × NodeId) :=
  g.edges.map fun e => (e.2.source, e.2.target)

structure IsStar (g : Graph N E) (center : NodeId) : Prop where
  live : center ∈ g.nodeIds
  arrows : g.arrows.Perm ((g.nodeIds.erase center).map (center, ·))

/-- All nodes in a row, the origin first, and an edge from each to the next. -/
def IsChain (g : Graph N E) (origin : NodeId) : Prop :=
  ∃ behind, (origin :: behind).Perm g.nodeIds ∧ g.arrows.Perm ((origin :: behind).zip behind)

/-- A directed way from an origin, edge by edge. Parallel edges make ways of their own. -/
inductive Route (g : Graph N E) (origin : NodeId) : List (EdgeId × Edge E) → NodeId → Prop where
  | nil : Route g origin [] origin
  | concat {route : List (EdgeId × Edge E)} {e : EdgeId × Edge E} {id : NodeId} :
      Route g origin route e.2.source → e ∈ g.edges → e.2.target = id →
      Route g origin (route ++ [e]) id

structure IsTrunk (g : Graph N E) (origin : NodeId) : Prop where
  live : origin ∈ g.nodeIds
  routes : ∀ id ∈ g.nodeIds, ∃! route, g.Route origin route id
  trunk : g.edges.countP (·.2.source = origin) ≤ 1

/-- The graph has the shape, built around the node. -/
def HasShape (g : Graph N E) : Topology → NodeId → Prop
  | .star => g.IsStar
  | .chain => g.IsChain
  | .trunkTree => g.IsTrunk

/-! ## Graphs with a root -/

/-- One edge arrives at each node but the origin, and none at the origin. -/
structure Rooted (g : Graph N E) (origin : NodeId) : Prop where
  live : origin ∈ g.nodeIds
  targets : (g.edges.map (·.2.target)).Perm (g.nodeIds.erase origin)

theorem outDegree_eq_count (wf : g.WellFormed) (id : NodeId) :
    g.outDegree id = (g.arrows.map Prod.fst).count id := by
  rw [outDegree_eq wf, List.count, List.countP_map, arrows, List.countP_map]
  rfl

theorem nodeIds_length (g : Graph N E) : g.nodeIds.length = g.nodeCount :=
  List.length_map ..

namespace Rooted

theorem edges_length (rooted : g.Rooted origin) : g.edges.length = g.nodeCount - 1 := by
  have length := rooted.targets.length_eq
  rwa [List.length_map, List.length_erase_of_mem rooted.live, nodeIds_length] at length

theorem inDegree (rooted : g.Rooted origin) (wf : g.WellFormed) (live : id ∈ g.nodeIds) :
    g.inDegree id = if id = origin then 0 else 1 := by
  have nodup := nodeIds_nodup wf
  rw [inDegree_eq_count wf, rooted.targets.count_eq]
  split
  · next same =>
    rw [same, List.count_eq_zero, nodup.mem_erase_iff]
    exact fun mem => mem.1 rfl
  · next differ =>
    rw [List.count_erase_of_ne differ]
    exact List.count_eq_one_of_mem nodup live

theorem target_ne (rooted : g.Rooted origin) (wf : g.WellFormed) {e : EdgeId × Edge E}
    (inside : e ∈ g.edges) : e.2.target ≠ origin := by
  have arrives := rooted.targets.subset (List.mem_map_of_mem inside)
  exact ((nodeIds_nodup wf).mem_erase_iff.mp arrives).1

theorem eq_of_target_eq (rooted : g.Rooted origin) (wf : g.WellFormed) {e e' : EdgeId × Edge E}
    (inside : e ∈ g.edges) (inside' : e' ∈ g.edges) (same : e.2.target = e'.2.target) : e = e' := by
  have nodup := rooted.targets.nodup_iff.mpr ((nodeIds_nodup wf).erase origin)
  exact List.inj_on_of_nodup_map nodup inside inside' same

end Rooted

/-- The root is the only node that nothing leads to, in a graph with one edge less than nodes. -/
theorem rooted_iff (wf : g.WellFormed) :
    g.Rooted origin ↔ g.isTreeSized ∧ g.source? = some origin := by
  have nodup := nodeIds_nodup wf
  constructor
  · intro rooted
    constructor
    · have some : g.nodeCount ≠ 0 := by
        have positive := List.length_pos_of_mem rooted.live
        rw [nodeIds_length] at positive
        omega
      simp [isTreeSized, some, edgeCount_eq wf, rooted.edges_length]
    · have single : g.nodeIds.filter (g.inDegree · = 0) = [origin] := by
        have only : g.nodeIds.filter (g.inDegree · = 0) = g.nodeIds.filter (· == origin) := by
          refine List.filter_congr fun id live => ?_
          rw [rooted.inDegree wf live]
          by_cases same : id = origin <;> simp [same]
        rw [only, List.filter_beq, List.count_eq_one_of_mem nodup rooted.live]
        rfl
      rw [source?, single]
  · rintro ⟨size, source⟩
    obtain ⟨live, none⟩ := source?_mem source
    refine ⟨live, ?_⟩
    -- something leads to every other node, and there are only as many edges as other nodes
    have others : g.nodeIds.erase origin ⊆ g.edges.map (·.2.target) := by
      intro id mem
      obtain ⟨differ, live'⟩ := nodup.mem_erase_iff.mp mem
      by_contra unled
      have zero : g.inDegree id = 0 := by
        rw [inDegree_eq_count wf, List.count_eq_zero]
        exact unled
      have here : id ∈ g.nodeIds.filter (g.inDegree · = 0) :=
        List.mem_filter.mpr ⟨live', by simpa using zero⟩
      simp only [source?] at source
      split at source
      · next single =>
        rw [single, List.mem_singleton] at here
        exact differ (here.trans (Option.some.inj source))
      · simp at source
    refine ((List.subperm_of_subset (nodup.erase origin) others).perm_of_length_le ?_).symm
    simp only [isTreeSized, Bool.and_eq_true, beq_iff_eq] at size
    rw [List.length_map, List.length_erase_of_mem live, nodeIds_length, ← edgeCount_eq wf, size.2]

/-- What is left to be asked of a graph with a root. -/
theorem anchor?_eq_some_iff_rooted (wf : g.WellFormed) {shape : Topology} :
    g.anchor? shape = some id ↔ g.Rooted id ∧ g.isAnchor shape id := by
  rw [anchor?_eq_some_iff, rooted_iff wf, and_assoc]

/-! ## Stars -/

/-- All edges leave a node if as many leave it as there are. -/
theorem outDegree_eq_length_iff (wf : g.WellFormed) :
    g.outDegree id = g.edges.length ↔ ∀ e ∈ g.edges, e.2.source = id := by
  rw [outDegree_eq wf, List.countP_eq_length]
  simp

theorem isStar_iff (wf : g.WellFormed) : g.IsStar id ↔ g.Rooted id ∧ g.isStarCenter id := by
  simp only [isStarCenter, Bool.and_eq_true, beq_iff_eq, List.all_eq_true, Bool.or_eq_true,
    decide_eq_true_eq]
  constructor
  · intro star
    have leave : ∀ e ∈ g.edges, e.2.source = id := by
      intro e inside
      have mem := star.arrows.subset (List.mem_map_of_mem inside)
      obtain ⟨_, _, same⟩ := List.mem_map.mp mem
      exact (congrArg Prod.fst same).symm
    have rooted : g.Rooted id := by
      refine ⟨star.live, ?_⟩
      have targets := star.arrows.map Prod.snd
      simpa [arrows, Function.comp_def] using targets
    refine ⟨rooted, ?_, fun other live => ?_⟩
    · rw [(outDegree_eq_length_iff wf).mpr leave, rooted.edges_length]
    · by_cases same : other = id
      · exact .inl same
      · refine .inr ⟨by rw [rooted.inDegree wf live, if_neg same], ?_⟩
        rw [outDegree_eq wf, List.countP_eq_zero]
        intro e inside
        simpa [leave e inside] using Ne.symm same
  · rintro ⟨rooted, all, -⟩
    rw [← rooted.edges_length, outDegree_eq_length_iff wf] at all
    have same : g.arrows = (g.edges.map (·.2.target)).map (id, ·) := by
      rw [arrows, List.map_map]
      refine List.map_congr_left fun e inside => ?_
      rw [all e inside]
      rfl
    exact ⟨rooted.live, same ▸ rooted.targets.map _⟩

/-! ## Chains -/

theorem reached_of_row {behind : List NodeId}
    (leads : ∀ arrow ∈ (origin :: behind).zip behind, g.Leads arrow.1 arrow.2) :
    ∀ id ∈ origin :: behind, Relation.ReflTransGen g.Leads origin id := by
  induction behind generalizing origin with
  | nil =>
    intro id mem
    rw [List.mem_singleton.mp mem]
  | cons next behind ih =>
    rw [List.zip_cons_cons, List.forall_mem_cons] at leads
    intro id mem
    rcases List.mem_cons.mp mem with rfl | later
    · exact .refl
    · exact .head leads.1 (ih leads.2 id later)

/-- Entries without jumps are those of a row of nodes. -/
theorem Describes.row {before : List NodeId} {entries : List (Entry N E)}
    {edges : List (EdgeId × Edge E)} (describes : g.Describes before entries edges)
    (straight : ∀ entry ∈ entries, entry.parent = none) :
    (edges.map fun e => (e.2.source, e.2.target)) =
      (before.getLast?.toList ++ edges.map (·.2.target)).zip (edges.map (·.2.target)) := by
  induction describes with
  | nil => simp
  | @cons before entry entries e edges _ _ _ _ parent _ ih =>
    rw [List.forall_mem_cons] at straight
    rw [straight.1, parentOf] at parent
    have later := ih straight.2
    rw [List.getLast?_concat] at later
    simp [parent, later]

theorem isChain_iff (wf : g.WellFormed) : g.IsChain id ↔ g.Rooted id ∧ g.isChainOrigin id := by
  constructor
  · rintro ⟨behind, listed, arrows⟩
    have nodup := listed.nodup_iff.mpr (nodeIds_nodup wf)
    have live := listed.subset (List.mem_cons_self ..)
    have rooted : g.Rooted id := by
      refine ⟨live, ?_⟩
      have targets := arrows.map Prod.snd
      rw [List.map_snd_zip (by simp)] at targets
      have others : (g.nodeIds.erase id).Perm behind := by
        simpa using (listed.erase id).symm
      simpa [Graph.arrows, Function.comp_def] using targets.trans others.symm
    have thin (other : NodeId) : g.outDegree other ≤ 1 := by
      have once := nodup.sublist (List.take_sublist behind.length _)
      rw [← map_fst_zip_eq_take] at once
      rw [outDegree_eq_count wf, (arrows.map Prod.fst).count_eq]
      exact List.nodup_iff_count_le_one.mp once other
    have leads : ∀ arrow ∈ (id :: behind).zip behind, g.Leads arrow.1 arrow.2 := by
      intro arrow mem
      obtain ⟨e, inside, rfl⟩ := List.mem_map.mp (arrows.mem_iff.mpr mem)
      exact ⟨e, inside, rfl, rfl⟩
    refine ⟨rooted, ?_⟩
    rw [isChainOrigin, Bool.and_eq_true, List.all_eq_true, reachesAll, beq_iff_eq,
      walkFrom_length_iff wf live]
    constructor
    · intro other live'
      have few := rooted.inDegree wf live'
      simp only [Bool.and_eq_true, decide_eq_true_eq, thin, and_true]
      split at few <;> omega
    · exact fun other live' => reached_of_row leads other (listed.mem_iff.mpr live')
  · rintro ⟨rooted, chain⟩
    have straight := parent_none_of_chain wf chain
    obtain ⟨value, here⟩ := (mem_nodeIds_iff_value? wf).mp rooted.live
    rw [isChainOrigin, Bool.and_eq_true] at chain
    obtain ⟨entries, edges, written, all⟩ :=
      entriesFrom_eq wf here ((rooted_iff wf).mp rooted).1 chain.2 (.inr straight)
    rw [written, List.forall_mem_cons, List.forall_mem_map] at straight
    have row := all.describes.row straight.2
    refine ⟨edges.map (·.2.target), ?_, ?_⟩
    · have targets := (all.perm.map (·.2.target)).trans rooted.targets
      exact (targets.cons id).trans (List.perm_cons_erase rooted.live).symm
    · have arrows := (all.perm.map fun e => (e.2.source, e.2.target)).symm
      rwa [row] at arrows

/-! ## Trunk trees -/

theorem Route.reached {route : List (EdgeId × Edge E)} (along : g.Route origin route id) :
    Relation.ReflTransGen g.Leads origin id := by
  induction along with
  | nil => exact .refl
  | concat _ inside target ih => exact ih.tail ⟨_, inside, rfl, target⟩

theorem exists_route (reached : Relation.ReflTransGen g.Leads origin id) :
    ∃ route, g.Route origin route id := by
  induction reached with
  | refl => exact ⟨[], .nil⟩
  | tail _ leads ih =>
    obtain ⟨route, along⟩ := ih
    obtain ⟨e, inside, rfl, target⟩ := leads
    exact ⟨route ++ [e], along.concat inside target⟩

/-- Where only one edge arrives, a way is determined from its end. -/
theorem Rooted.route_unique (rooted : g.Rooted origin) (wf : g.WellFormed)
    {route route' : List (EdgeId × Edge E)} (along : g.Route origin route id)
    (along' : g.Route origin route' id) : route = route' := by
  induction along generalizing route' with
  | nil =>
    cases along' with
    | nil => rfl
    | concat _ inside target => exact absurd target (rooted.target_ne wf inside)
  | concat _ inside target ih =>
    cases along' with
    | nil => exact absurd target (rooted.target_ne wf inside)
    | concat before inside' target' =>
      obtain rfl := rooted.eq_of_target_eq wf inside inside' (target.trans target'.symm)
      rw [ih before]

/-- Two edges to one node, or one edge to the origin, would make a second way. -/
theorem IsTrunk.rooted (trunk : g.IsTrunk origin) (wf : g.WellFormed) : g.Rooted origin := by
  have nodup := nodeIds_nodup wf
  have unique {a : NodeId} {route route' : List (EdgeId × Edge E)} (live : a ∈ g.nodeIds)
      (along : g.Route origin route a) (along' : g.Route origin route' a) : route = route' :=
    (trunk.routes a live).unique along along'
  have source {e : EdgeId × Edge E} (inside : e ∈ g.edges) :
      ∃ route, g.Route origin route e.2.source :=
    (trunk.routes _ (source_mem wf inside)).exists
  have once : (g.edges.map (·.2.target)).Nodup := by
    refine (List.Nodup.of_map _ (edgeIds_nodup wf)).map_on fun e inside e' inside' same => ?_
    obtain ⟨route, along⟩ := source inside
    obtain ⟨route', along'⟩ := source inside'
    have both := unique (target_mem wf inside) (along.concat inside rfl)
      (along'.concat inside' same.symm)
    exact (List.append_singleton_inj.mp both).2
  refine ⟨trunk.live, (List.perm_ext_iff_of_nodup once (nodup.erase origin)).mpr fun a => ?_⟩
  rw [nodup.mem_erase_iff]
  constructor
  · intro arrives
    obtain ⟨e, inside, rfl⟩ := List.mem_map.mp arrives
    refine ⟨fun back => ?_, target_mem wf inside⟩
    obtain ⟨route, along⟩ := source inside
    have both := unique trunk.live (along.concat inside back) .nil
    simp at both
  · rintro ⟨differ, live⟩
    obtain ⟨route, along⟩ := (trunk.routes a live).exists
    cases along with
    | nil => exact absurd rfl differ
    | concat _ inside target => exact List.mem_map.mpr ⟨_, inside, target⟩

theorem isTrunk_iff (wf : g.WellFormed) : g.IsTrunk id ↔ g.Rooted id ∧ g.isTrunkOrigin id := by
  simp only [isTrunkOrigin, Bool.and_eq_true, decide_eq_true_eq, reachesAll, beq_iff_eq,
    outDegree_eq wf]
  constructor
  · intro trunk
    have rooted := trunk.rooted wf
    refine ⟨rooted, ⟨trunk.trunk, ?_⟩, ?_⟩
    · rw [List.all_eq_true]
      intro other live
      rw [rooted.inDegree wf live]
      by_cases same : other = id <;> simp [same]
    · rw [walkFrom_length_iff wf trunk.live]
      intro other live
      obtain ⟨route, along⟩ := (trunk.routes other live).exists
      exact along.reached
  · rintro ⟨rooted, ⟨thin, -⟩, all⟩
    rw [walkFrom_length_iff wf rooted.live] at all
    refine ⟨rooted.live, fun other live => ?_, thin⟩
    obtain ⟨route, along⟩ := exists_route (all other live)
    exact ⟨route, along, fun route' along' => rooted.route_unique wf along' along⟩

/-! ## The anchor -/

theorem hasShape_iff (wf : g.WellFormed) {shape : Topology} :
    g.HasShape shape id ↔ g.Rooted id ∧ g.isAnchor shape id := by
  cases shape with
  | star => exact isStar_iff wf
  | chain => exact isChain_iff wf
  | trunkTree => exact isTrunk_iff wf

/-- The anchor is the node that the graph has the shape around. There is one at most, and there is
none exactly if the graph does not have the shape. -/
theorem anchor?_decides (reachable : g.Reachable) (shape : Topology) :
    (∀ id, g.anchor? shape = some id ↔ g.HasShape shape id) ∧
      (∀ a b, g.HasShape shape a → g.HasShape shape b → a = b) ∧
      (g.anchor? shape = none ↔ ∀ id, ¬ g.HasShape shape id) ∧
      (g.isEmpty → g.anchor? shape = none) := by
  have wf := reachable.wellFormed
  have decides (id : NodeId) : g.anchor? shape = some id ↔ g.HasShape shape id := by
    rw [anchor?_eq_some_iff_rooted wf, hasShape_iff wf]
  refine ⟨decides, fun a b first second => ?_, ?_, fun empty => ?_⟩
  · rw [← decides] at first second
    exact Option.some.inj (first.symm.trans second)
  · rw [Option.eq_none_iff_forall_ne_some]
    exact forall_congr' fun id => not_congr (decides id)
  · rw [anchor?, if_neg]
    rw [isEmpty, beq_iff_eq] at empty
    simp [isTreeSized, empty]

/-- Two branches on a trunk. The origin is in a slot that was used before. -/
def fork : Graph Nat Nat :=
  empty.applyAll [.createNode 1, .createNode 2, .removeNode ⟨0, 0⟩, .createNode 3, .createNode 4,
    .createNode 5, .createEdge ⟨0, 1⟩ ⟨1, 0⟩ 1, .createEdge ⟨1, 0⟩ ⟨2, 0⟩ 2,
    .createEdge ⟨1, 0⟩ ⟨3, 0⟩ 3]

/-- An edge beside two nodes that lead to each other. There are as many edges as in a chain, and
there is only one node that nothing leads to. -/
def detachedRing : Graph Nat Nat :=
  empty.applyAll [.createNode 1, .createNode 2, .createNode 3, .createNode 4,
    .createEdge ⟨0, 0⟩ ⟨1, 0⟩ 1, .createEdge ⟨2, 0⟩ ⟨3, 0⟩ 2, .createEdge ⟨3, 0⟩ ⟨2, 0⟩ 3]

theorem anchor?_decides_detached :
    (fork.Reachable ∧ fork.HasShape .trunkTree ⟨0, 1⟩ ∧ ∀ id, ¬ fork.HasShape .chain id) ∧
      (detachedRing.Reachable ∧ detachedRing.source? = some ⟨0, 0⟩ ∧
        ∀ id, ¬ detachedRing.HasShape .chain id) := by
  have made : fork.Reachable := Reachable.empty.applyAll _
  have made' : detachedRing.Reachable := Reachable.empty.applyAll _
  refine ⟨⟨made, ?_, ?_⟩, made', by decide, ?_⟩
  · exact ((anchor?_decides made .trunkTree).1 _).mp (by cbv)
  · exact (anchor?_decides made .chain).2.2.1.mp (by cbv)
  · exact (anchor?_decides made' .chain).2.2.1.mp (by cbv)

end Tangible.Graph
