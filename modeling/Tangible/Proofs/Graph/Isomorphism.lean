import Mathlib.Data.List.Perm.Basic
import Tangible.Graph.Topology
import Tangible.Proofs.Graph.Walk

/-!
# Isomorphic graphs

`Matches g h f` says that `h` has the nodes and the edges of `g` under the handles that `f` gives
them, whatever their payloads. `Renames g h f` says that the payloads agree as well, counted with
multiplicity and in any order. Graphs are isomorphic if some renaming leads from one to the other.
Payloads are compared by equality, so two floating-point payloads agree bit by bit.

Graphs that match agree in every observation that shows neither handles nor payloads: the counts,
the degrees and what leads to what. The anchor of a shape is therefore renamed with the graph
(`Matches.anchor?`).
-/

namespace Tangible.Graph

variable {N E M F : Type} {g : Graph N E} {h : Graph M F} {f : NodeId → NodeId}

structure Matches (g : Graph N E) (h : Graph M F) (f : NodeId → NodeId) : Prop where
  nodeIds : (g.nodeIds.map f).Perm h.nodeIds
  ends : (g.edges.map fun e => (f e.2.source, f e.2.target)).Perm
    (h.edges.map fun e => (e.2.source, e.2.target))

structure Renames (g h : Graph N E) (f : NodeId → NodeId) : Prop where
  nodes : (g.nodes.map fun n => (f n.1, n.2)).Perm h.nodes
  edges : (g.edges.map fun e => Edge.mk (f e.2.source) (f e.2.target) e.2.value).Perm
    (h.edges.map (·.2))

def Isomorphic (g h : Graph N E) : Prop := ∃ f, g.Renames h f

theorem Isomorphic.refl (g : Graph N E) : g.Isomorphic g :=
  ⟨id, by simp, by simp⟩

theorem Isomorphic.trans {g h k : Graph N E} (first : g.Isomorphic h) (second : h.Isomorphic k) :
    g.Isomorphic k := by
  obtain ⟨f, first⟩ := first
  obtain ⟨f', second⟩ := second
  refine ⟨f' ∘ f, ?_, ?_⟩
  · have nodes := (first.nodes.map fun n => (f' n.1, n.2)).trans second.nodes
    simpa only [List.map_map, Function.comp_def] using nodes
  · have edges := first.edges.map fun e => Edge.mk (f' e.source) (f' e.target) e.value
    simp only [List.map_map, Function.comp_def] at edges
    exact edges.trans second.edges

theorem Renames.matches {g h : Graph N E} (renames : g.Renames h f) (wfg : g.WellFormed)
    (wfh : h.WellFormed) : g.Matches h f where
  nodeIds := by
    have ids := renames.nodes.map (·.1)
    rw [nodeIds_eq wfg, nodeIds_eq wfh]
    simpa only [List.map_map, Function.comp_def] using ids
  ends := by
    have ends := renames.edges.map fun e => (e.source, e.target)
    simpa only [List.map_map, Function.comp_def] using ends

theorem Renames.value? {g h : Graph N E} (renames : g.Renames h f) (wfg : g.WellFormed)
    (wfh : h.WellFormed) {id : NodeId} {value : N} (found : g.value? id = some value) :
    h.value? (f id) = some value := by
  rw [value?_eq_some_iff wfg] at found
  rw [value?_eq_some_iff wfh]
  exact renames.nodes.mem_iff.mp (List.mem_map.mpr ⟨_, found, rfl⟩)

/-! ## What graphs that match have in common -/

namespace Matches

theorem nodeCount (both : g.Matches h f) : h.nodeCount = g.nodeCount := by
  have length := both.nodeIds.length_eq
  simpa [Graph.nodeIds, Graph.nodeCount, Arena.size] using length.symm

theorem edgeCount (both : g.Matches h f) (wfg : g.WellFormed) (wfh : h.WellFormed) :
    h.edgeCount = g.edgeCount := by
  have length := both.ends.length_eq
  rw [List.length_map, List.length_map] at length
  rw [edgeCount_eq wfg, edgeCount_eq wfh, length]

/-- No two nodes get the same new handle. -/
theorem injective (both : g.Matches h f) (wfh : h.WellFormed) {a b : NodeId}
    (first : a ∈ g.nodeIds) (second : b ∈ g.nodeIds) : f a = f b ↔ a = b := by
  have nodup := both.nodeIds.nodup_iff.mpr (nodeIds_nodup wfh)
  constructor
  · exact List.inj_on_of_nodup_map nodup first second
  · exact congrArg f

theorem leads (both : g.Matches h f) {a b : NodeId} (leads : g.Leads a b) :
    h.Leads (f a) (f b) := by
  obtain ⟨e, inside, rfl, rfl⟩ := leads
  have renamed := both.ends.mem_iff.mp (List.mem_map.mpr ⟨e, inside, rfl⟩)
  obtain ⟨e', inside', same⟩ := List.mem_map.mp renamed
  rw [Prod.mk.injEq] at same
  exact ⟨e', inside', same⟩

/-- A property of edges holds of as many edges as before if renaming keeps it. -/
theorem countP (both : g.Matches h f) (p : NodeId → NodeId → Bool) (q : NodeId → NodeId → Bool)
    (agree : ∀ e ∈ g.edges, q (f e.2.source) (f e.2.target) = p e.2.source e.2.target) :
    (h.edges.countP fun e => q e.2.source e.2.target) =
      g.edges.countP fun e => p e.2.source e.2.target := by
  have count := both.ends.countP_eq fun e => q e.1 e.2
  rw [List.countP_map, List.countP_map] at count
  refine Eq.trans count.symm (List.countP_congr fun e inside => ?_)
  simp [agree e inside]

theorem inDegree (both : g.Matches h f) (wfg : g.WellFormed) (wfh : h.WellFormed) {id : NodeId}
    (live : id ∈ g.nodeIds) : h.inDegree (f id) = g.inDegree id := by
  rw [inDegree_eq wfg, inDegree_eq wfh]
  refine both.countP (fun _ target => target = id) (fun _ target => target = f id) ?_
  intro e inside
  simp [both.injective wfh (target_mem wfg inside) live]

theorem outDegree (both : g.Matches h f) (wfg : g.WellFormed) (wfh : h.WellFormed) {id : NodeId}
    (live : id ∈ g.nodeIds) : h.outDegree (f id) = g.outDegree id := by
  rw [outDegree_eq wfg, outDegree_eq wfh]
  refine both.countP (fun source _ => source = id) (fun source _ => source = f id) ?_
  intro e inside
  simp [both.injective wfh (source_mem wfg inside) live]

/-- What holds of every node under its new handle holds of every node. -/
theorem all (both : g.Matches h f) (p q : NodeId → Bool)
    (agree : ∀ id ∈ g.nodeIds, q (f id) = p id) : h.nodeIds.all q = g.nodeIds.all p := by
  have moved := both.nodeIds.all_eq (f := q)
  rw [List.all_map] at moved
  rw [← moved, Bool.eq_iff_iff, List.all_eq_true, List.all_eq_true]
  refine forall₂_congr fun id live => ?_
  rw [Function.comp_apply, agree id live]

theorem source? (both : g.Matches h f) (wfg : g.WellFormed) (wfh : h.WellFormed) {id : NodeId}
    (found : g.source? = some id) : h.source? = some (f id) := by
  have sources := both.nodeIds.filter (h.inDegree · = 0)
  have moved : (g.nodeIds.map f).filter (h.inDegree · = 0) =
      (g.nodeIds.filter (g.inDegree · = 0)).map f := by
    rw [List.filter_map]
    congr 1
    refine List.filter_congr fun id live => ?_
    simp [both.inDegree wfg wfh live]
  rw [moved] at sources
  simp only [Graph.source?] at found ⊢
  split at found
  · next single =>
    rw [single] at sources
    rw [List.perm_singleton.mp sources.symm]
    rw [Option.some.injEq] at found
    simp [found]
  · simp at found

theorem reachesAll (both : g.Matches h f) (wfg : g.WellFormed) (wfh : h.WellFormed)
    {origin : NodeId} (live : origin ∈ g.nodeIds) (all : g.reachesAll origin) :
    h.reachesAll (f origin) := by
  have ids := both.nodeIds
  rw [Graph.reachesAll, beq_iff_eq, walkFrom_length_iff wfg live] at all
  rw [Graph.reachesAll, beq_iff_eq,
    walkFrom_length_iff wfh (ids.mem_iff.mp (List.mem_map_of_mem live))]
  intro id mem
  obtain ⟨id, old, rfl⟩ := List.mem_map.mp (ids.mem_iff.mpr mem)
  exact (all id old).lift f fun _ _ => both.leads

theorem isAnchor (both : g.Matches h f) (wfg : g.WellFormed) (wfh : h.WellFormed)
    {shape : Topology} {id : NodeId} (live : id ∈ g.nodeIds) (anchor : g.isAnchor shape id) :
    h.isAnchor shape (f id) := by
  have inDegree : ∀ id ∈ g.nodeIds, h.inDegree (f id) = g.inDegree id :=
    fun _ => both.inDegree wfg wfh
  have outDegree : ∀ id ∈ g.nodeIds, h.outDegree (f id) = g.outDegree id :=
    fun _ => both.outDegree wfg wfh
  cases shape with
  | star =>
    simp only [Graph.isAnchor, isStarCenter, Bool.and_eq_true, beq_iff_eq] at anchor ⊢
    refine ⟨by rw [outDegree id live, both.nodeCount, anchor.1], ?_⟩
    rw [← anchor.2]
    refine both.all _ _ fun id' live' => ?_
    simp only [inDegree id' live', outDegree id' live', both.injective wfh live' live]
  | chain =>
    simp only [Graph.isAnchor, isChainOrigin, Bool.and_eq_true] at anchor ⊢
    refine ⟨?_, both.reachesAll wfg wfh live anchor.2⟩
    rw [← anchor.1]
    refine both.all _ _ fun id' live' => ?_
    simp only [inDegree id' live', outDegree id' live']
  | trunkTree =>
    simp only [Graph.isAnchor, isTrunkOrigin, Bool.and_eq_true] at anchor ⊢
    refine ⟨⟨by rw [outDegree id live]; exact anchor.1.1, ?_⟩,
      both.reachesAll wfg wfh live anchor.2⟩
    rw [← anchor.1.2]
    refine both.all _ _ fun id' live' => ?_
    simp only [inDegree id' live', both.injective wfh live' live]

end Matches

theorem source?_mem {id : NodeId} (found : g.source? = some id) :
    id ∈ g.nodeIds ∧ g.inDegree id = 0 := by
  simp only [source?] at found
  split at found
  · next _ origin single =>
    rw [Option.some.injEq] at found
    subst found
    have mem := List.mem_singleton_self origin
    rw [← single, List.mem_filter] at mem
    simpa using mem
  · simp at found

theorem anchor?_eq_some_iff {shape : Topology} {id : NodeId} :
    g.anchor? shape = some id ↔ g.isTreeSized ∧ g.source? = some id ∧ g.isAnchor shape id := by
  simp only [anchor?]
  split <;> simp_all [Option.filter_eq_some_iff]

/-- The anchor of a graph is renamed with the graph. -/
theorem Matches.anchor? (both : g.Matches h f) (wfg : g.WellFormed) (wfh : h.WellFormed)
    {shape : Topology} {id : NodeId} (found : g.anchor? shape = some id) :
    h.anchor? shape = some (f id) := by
  rw [anchor?_eq_some_iff] at found ⊢
  obtain ⟨size, source, anchor⟩ := found
  refine ⟨?_, both.source? wfg wfh source,
    both.isAnchor wfg wfh (source?_mem source).1 anchor⟩
  rw [isTreeSized, both.nodeCount, both.edgeCount wfg wfh]
  exact size

/-- Graphs of the same handles have the same anchor. -/
theorem Matches.anchor?_eq (both : g.Matches h fun n => n) (wfg : g.WellFormed)
    (wfh : h.WellFormed) (shape : Topology) : h.anchor? shape = g.anchor? shape := by
  have back : h.Matches g fun n => n := by
    have nodeIds := both.nodeIds.symm
    rw [List.map_id'] at nodeIds
    exact ⟨by rwa [List.map_id'], both.ends.symm⟩
  refine Option.ext fun id => ⟨back.anchor? wfh wfg, both.anchor? wfg wfh⟩

theorem matches_setNode (id : NodeId) (value : N) : g.Matches (g.setNode id value) (fun n => n) := by
  have order : (g.nodeArena.modify id.handle ({ · with value })).order = g.nodeArena.order := by
    rw [Arena.modify]
    split <;> rfl
  refine ⟨?_, .refl _⟩
  rw [List.map_id', nodeIds, nodeIds, setNode, modifyNode, order]

theorem matches_mapNodes (change : N → N) : g.Matches (g.mapNodes change) (fun n => n) := by
  refine ⟨?_, .refl _⟩
  rw [List.map_id']
  exact .refl _

/-- Giving a node the payload that it has changes nothing that can be seen. -/
theorem nodes_setNode_self (wf : g.WellFormed) {id : NodeId} {value : N}
    (found : g.value? id = some value) : (g.setNode id value).nodes = g.nodes := by
  rw [nodes_setNode]
  refine (List.map_congr_left fun n mem => ?_).trans (List.map_id _)
  split
  · next same =>
    have here : g.value? n.1 = some n.2 := (value?_eq_some_iff wf).mpr mem
    rw [same, found, Option.some.injEq] at here
    rw [here]
    rfl
  · rfl

end Tangible.Graph
