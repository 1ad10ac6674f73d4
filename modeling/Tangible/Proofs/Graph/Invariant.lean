import Tangible.Graph.Basic
import Tangible.Proofs.Graph.Arena

/-!
# The invariant of graphs

A graph keeps its edges twice: in the arena of edges and in the lists of edges that every node
carries. `Graph.WellFormed` says that the two agree, edge for edge and in the order of creation,
and that edges connect live nodes. `Graph.Reachable` is every graph that the operations make from
the empty one, whatever handles they are given; `Reachable.wellFormed` is the invariant of all of
them.

Under the invariant the two listings `nodes` and `edges` determine every other observation:
`value?_eq_some_iff`, `outEdges_eq`, `inEdges_eq`, `outDegree_eq`, `inDegree_eq`.
-/

namespace Tangible

theorem NodeId.handle_inj {a b : NodeId} : a.handle = b.handle ↔ a = b := by
  cases a
  cases b
  simp

theorem EdgeId.handle_inj {a b : EdgeId} : a.handle = b.handle ↔ a = b := by
  cases a
  cases b
  simp

namespace Graph

variable {N E : Type} {g : Graph N E}

/-- The edges with the nodes they connect, in the order of their creation. -/
def ends (g : Graph N E) : List (EdgeId × NodeId × NodeId) :=
  g.edges.map fun e => (e.1, e.2.source, e.2.target)

structure WellFormed (g : Graph N E) : Prop where
  nodeArena : g.nodeArena.WellFormed
  edgeArena : g.edgeArena.WellFormed
  live : ∀ e ∈ g.ends, g.contains e.2.1 ∧ g.contains e.2.2
  outgoing_eq : ∀ id, g.outgoing id = (g.ends.filter (·.2.1 = id)).map (·.1)
  incoming_eq : ∀ id, g.incoming id = (g.ends.filter (·.2.2 = id)).map (·.1)

/-! ## Nodes -/

theorem outgoing_of_stale {id : NodeId} (stale : ¬ g.contains id) : g.outgoing id = [] := by
  simp only [contains, Bool.not_eq_true, Option.isSome_eq_false_iff, Option.isNone_iff_eq_none]
    at stale
  simp [outgoing, stale]

theorem incoming_of_stale {id : NodeId} (stale : ¬ g.contains id) : g.incoming id = [] := by
  simp only [contains, Bool.not_eq_true, Option.isSome_eq_false_iff, Option.isNone_iff_eq_none]
    at stale
  simp [incoming, stale]

theorem node?_modifyNode (f : Node N → Node N) (id id' : NodeId) :
    (g.modifyNode id f).node? id' = if id' = id then (g.node? id).map f else g.node? id' := by
  simp only [node?, modifyNode, Arena.get?_modify, NodeId.handle_inj]

theorem contains_modifyNode (f : Node N → Node N) (id id' : NodeId) :
    (g.modifyNode id f).contains id' = g.contains id' := by
  simp only [contains, node?_modifyNode]
  split
  · next same => simp [same]
  · rfl

/-- New payloads leave the listing of the edges alone, new lists of edges that of the nodes. -/
theorem nodes_eq_of_revalued {arena : Arena (Node N)}
    (revalued : g.nodeArena.Revalued (fun a b => a.value = b.value) arena) :
    nodes { g with nodeArena := arena } = g.nodes := by
  have values := congrArg (List.map fun e : Handle × N => (NodeId.mk e.1, e.2))
    (revalued.entries Node.value fun _ _ same => same)
  rw [List.map_map, List.map_map] at values
  exact values

theorem nodes_modifyNode (f : Node N → Node N) (id : NodeId)
    (keep : ∀ node, (f node).value = node.value) : (g.modifyNode id f).nodes = g.nodes := by
  apply nodes_eq_of_revalued
  apply Arena.Revalued.of_modify
  · exact fun _ => rfl
  · exact fun node _ => (keep node).symm

theorem nodeArena_modifyNode (wf : g.nodeArena.WellFormed) (f : Node N → Node N) (id : NodeId) :
    (g.modifyNode id f).nodeArena.WellFormed := by
  have revalued : g.nodeArena.Revalued (fun _ _ => True) (g.modifyNode id f).nodeArena :=
    .of_modify (fun _ => trivial) f id.handle fun _ _ => trivial
  exact revalued.wellFormed wf

/-- The graph with another arena of edges, where the source of an edge has its outgoing edges
changed and the target its incoming ones. New edges and removed edges are made this way. -/
def relink (g : Graph N E) (edges : Arena (Edge E)) (source target : NodeId)
    (out into : List EdgeId → List EdgeId) : Graph N E :=
  ({ g with edgeArena := edges }.modifyNode source
    fun node => { node with outgoing := out node.outgoing }).modifyNode target
      fun node => { node with incoming := into node.incoming }

section Relink

variable (edges : Arena (Edge E)) (source target : NodeId) (out into : List EdgeId → List EdgeId)

theorem edgeArena_relink : (g.relink edges source target out into).edgeArena = edges := rfl

theorem nodes_relink : (g.relink edges source target out into).nodes = g.nodes := by
  rw [relink, nodes_modifyNode, nodes_modifyNode]
  · rfl
  · exact fun _ => rfl
  · exact fun _ => rfl

theorem nodeArena_relink (wf : g.nodeArena.WellFormed) :
    (g.relink edges source target out into).nodeArena.WellFormed :=
  nodeArena_modifyNode (nodeArena_modifyNode (g := { g with edgeArena := edges }) wf ..) ..

theorem contains_relink (id : NodeId) :
    (g.relink edges source target out into).contains id = g.contains id := by
  rw [relink, contains_modifyNode, contains_modifyNode]
  rfl

theorem outgoing_relink (live : g.contains source) (id : NodeId) :
    (g.relink edges source target out into).outgoing id =
      if id = source then out (g.outgoing id) else g.outgoing id := by
  obtain ⟨node, found⟩ := Option.isSome_iff_exists.mp live
  have same : node? { g with edgeArena := edges } = g.node? := rfl
  simp only [relink, outgoing, node?_modifyNode, same]
  by_cases isSource : id = source <;> by_cases isTarget : id = target <;>
    simp_all [Function.comp_def]

theorem incoming_relink (live : g.contains target) (id : NodeId) :
    (g.relink edges source target out into).incoming id =
      if id = target then into (g.incoming id) else g.incoming id := by
  obtain ⟨node, found⟩ := Option.isSome_iff_exists.mp live
  have same : node? { g with edgeArena := edges } = g.node? := rfl
  simp only [relink, incoming, node?_modifyNode, same]
  by_cases isSource : id = source <;> by_cases isTarget : id = target <;>
    simp_all [Function.comp_def]

end Relink

/-! ## Listings -/

theorem nodeIds_eq (wf : g.WellFormed) : g.nodeIds = g.nodes.map (·.1) := by
  simp only [nodeIds, nodes, List.map_map, ← wf.nodeArena.entries_keys]
  rfl

theorem nodeIds_nodup (wf : g.WellFormed) : g.nodeIds.Nodup := by
  refine wf.nodeArena.order_nodup.map ?_
  intro a b same
  simpa using same

theorem mem_nodeIds (wf : g.WellFormed) {id : NodeId} : id ∈ g.nodeIds ↔ g.contains id := by
  simp only [nodeIds, contains, node?, ← wf.nodeArena.mem_order, List.mem_map]
  constructor
  · rintro ⟨_, mem, rfl⟩
    exact mem
  · exact fun mem => ⟨id.handle, mem, rfl⟩

theorem value?_eq_some_iff (wf : g.WellFormed) {id : NodeId} {value : N} :
    g.value? id = some value ↔ (id, value) ∈ g.nodes := by
  simp only [value?, node?, nodes, List.mem_map, Prod.mk.injEq, Option.map_eq_some_iff]
  constructor
  · rintro ⟨node, found, rfl⟩
    exact ⟨(id.handle, node), (wf.nodeArena.mem_entries _ _).mpr found, rfl, rfl⟩
  · rintro ⟨⟨h, node⟩, mem, rfl, rfl⟩
    exact ⟨node, (wf.nodeArena.mem_entries _ _).mp mem, rfl⟩

theorem mem_nodeIds_iff_value? (wf : g.WellFormed) {id : NodeId} :
    id ∈ g.nodeIds ↔ ∃ value, g.value? id = some value := by
  simp only [nodeIds_eq wf, List.mem_map, value?_eq_some_iff wf]
  constructor
  · rintro ⟨⟨_, value⟩, mem, rfl⟩
    exact ⟨value, mem⟩
  · rintro ⟨value, mem⟩
    exact ⟨(id, value), mem, rfl⟩

theorem edge?_eq_some_iff (wf : g.WellFormed) {id : EdgeId} {edge : Edge E} :
    g.edge? id = some edge ↔ (id, edge) ∈ g.edges := by
  simp only [edge?, edges, List.mem_map, Prod.mk.injEq]
  constructor
  · intro found
    exact ⟨(id.handle, edge), (wf.edgeArena.mem_entries _ _).mpr found, rfl, rfl⟩
  · rintro ⟨⟨h, edge⟩, mem, rfl, rfl⟩
    exact (wf.edgeArena.mem_entries _ _).mp mem

theorem edgeIds_nodup (wf : g.WellFormed) : (g.edges.map (·.1)).Nodup := by
  have ids : g.edges.map (·.1) = g.edgeArena.order.map EdgeId.mk := by
    simp only [edges, List.map_map, ← wf.edgeArena.entries_keys]
    rfl
  rw [ids]
  refine wf.edgeArena.order_nodup.map ?_
  intro a b same
  simpa using same

theorem nodeCount_eq (wf : g.WellFormed) : g.nodeCount = g.nodes.length := by
  rw [nodes, List.length_map, nodeCount, Arena.size, ← wf.nodeArena.entries_keys, List.length_map]

theorem edgeCount_eq (wf : g.WellFormed) : g.edgeCount = g.edges.length := by
  rw [edges, List.length_map, edgeCount, Arena.size, ← wf.edgeArena.entries_keys, List.length_map]

/-- An edge is determined by its id. -/
theorem edge_unique (wf : g.WellFormed) {id : EdgeId} {a b : Edge E} (first : (id, a) ∈ g.edges)
    (second : (id, b) ∈ g.edges) : a = b := by
  rw [← edge?_eq_some_iff wf] at first second
  rw [first] at second
  exact Option.some.inj second

theorem resolve_eq (wf : g.WellFormed) (keep : EdgeId × Edge E → Bool) :
    g.resolve ((g.edges.filter keep).map (·.1)) = g.edges.filter keep := by
  have all (part : List (EdgeId × Edge E)) (inside : ∀ e ∈ part, e ∈ g.edges) :
      g.resolve (part.map (·.1)) = part := by
    induction part with
    | nil => rfl
    | cons e part ih =>
      have found : g.edge? e.1 = some e.2 :=
        (edge?_eq_some_iff wf).mpr (inside e (List.mem_cons_self ..))
      rw [List.map_cons, resolve, List.filterMap_cons, found]
      exact congrArg _ (ih fun e mem => inside e (List.mem_cons_of_mem _ mem))
  exact all _ fun e mem => (List.mem_filter.mp mem).1

theorem outgoing_eq_nil (wf : g.WellFormed) {id : NodeId} (apart : ∀ e ∈ g.ends, e.2.1 ≠ id) :
    g.outgoing id = [] := by
  rw [wf.outgoing_eq, List.map_eq_nil_iff, List.filter_eq_nil_iff]
  exact fun e mem => by simpa using apart e mem

theorem incoming_eq_nil (wf : g.WellFormed) {id : NodeId} (apart : ∀ e ∈ g.ends, e.2.2 ≠ id) :
    g.incoming id = [] := by
  rw [wf.incoming_eq, List.map_eq_nil_iff, List.filter_eq_nil_iff]
  exact fun e mem => by simpa using apart e mem

theorem outgoing_eq_edges (wf : g.WellFormed) (id : NodeId) :
    g.outgoing id = (g.edges.filter (·.2.source = id)).map (·.1) := by
  simp only [wf.outgoing_eq, ends, List.filter_map, List.map_map]
  rfl

theorem incoming_eq_edges (wf : g.WellFormed) (id : NodeId) :
    g.incoming id = (g.edges.filter (·.2.target = id)).map (·.1) := by
  simp only [wf.incoming_eq, ends, List.filter_map, List.map_map]
  rfl

theorem outEdges_eq (wf : g.WellFormed) (id : NodeId) :
    g.outEdges id = g.edges.filter (·.2.source = id) := by
  rw [outEdges, outgoing_eq_edges wf, resolve_eq wf]

theorem inEdges_eq (wf : g.WellFormed) (id : NodeId) :
    g.inEdges id = g.edges.filter (·.2.target = id) := by
  rw [inEdges, incoming_eq_edges wf, resolve_eq wf]

/-- An edge is listed once among the edges that are kept, if it is one of them. -/
theorem count_filter_edges (wf : g.WellFormed) {e : EdgeId × Edge E} (inside : e ∈ g.edges)
    (keep : EdgeId × Edge E → Bool) :
    ((g.edges.filter keep).map (·.1)).count e.1 = if keep e then 1 else 0 := by
  have nodup : ((g.edges.filter keep).map (·.1)).Nodup :=
    (edgeIds_nodup wf).sublist (List.filter_sublist.map _)
  by_cases kept : keep e
  · rw [if_pos kept]
    exact List.count_eq_one_of_mem nodup
      (List.mem_map_of_mem (List.mem_filter.mpr ⟨inside, kept⟩))
  · rw [if_neg kept]
    refine List.count_eq_zero_of_not_mem fun listed => kept ?_
    obtain ⟨⟨id, edge⟩, mem, same⟩ := List.mem_map.mp listed
    obtain ⟨other, keeps⟩ := List.mem_filter.mp mem
    obtain rfl : id = e.1 := same
    rwa [edge_unique wf other inside] at keeps

theorem count_outEdges (wf : g.WellFormed) {e : EdgeId × Edge E} (inside : e ∈ g.edges)
    (id : NodeId) :
    ((g.outEdges id).map (·.1)).count e.1 = if e.2.source = id then 1 else 0 := by
  rw [outEdges_eq wf, count_filter_edges wf inside]
  simp

theorem count_inEdges (wf : g.WellFormed) {e : EdgeId × Edge E} (inside : e ∈ g.edges)
    (id : NodeId) :
    ((g.inEdges id).map (·.1)).count e.1 = if e.2.target = id then 1 else 0 := by
  rw [inEdges_eq wf, count_filter_edges wf inside]
  simp

theorem outDegree_eq (wf : g.WellFormed) (id : NodeId) :
    g.outDegree id = g.edges.countP (·.2.source = id) := by
  rw [outDegree, outgoing_eq_edges wf, List.length_map, List.countP_eq_length_filter]

theorem inDegree_eq (wf : g.WellFormed) (id : NodeId) :
    g.inDegree id = g.edges.countP (·.2.target = id) := by
  rw [inDegree, incoming_eq_edges wf, List.length_map, List.countP_eq_length_filter]

theorem source_mem (wf : g.WellFormed) {e : EdgeId × Edge E} (mem : e ∈ g.edges) :
    e.2.source ∈ g.nodeIds :=
  (mem_nodeIds wf).mpr (wf.live _ (List.mem_map.mpr ⟨e, mem, rfl⟩)).1

theorem target_mem (wf : g.WellFormed) {e : EdgeId × Edge E} (mem : e ∈ g.edges) :
    e.2.target ∈ g.nodeIds :=
  (mem_nodeIds wf).mpr (wf.live _ (List.mem_map.mpr ⟨e, mem, rfl⟩)).2

/-- Without nodes there are no edges either. -/
theorem edges_eq_nil_of_isEmpty (wf : g.WellFormed) (none : g.isEmpty) : g.edges = [] := by
  rw [isEmpty, beq_iff_eq, nodeCount_eq wf, List.length_eq_zero_iff] at none
  refine List.eq_nil_iff_forall_not_mem.mpr fun e inside => ?_
  have source := source_mem wf inside
  rw [nodeIds_eq wf, none] at source
  simp at source

/-! ## The operations and the listings -/

theorem nodes_createNode (wf : g.WellFormed) (value : N) :
    (g.createNode value).2.nodes = g.nodes ++ [((g.createNode value).1, value)] := by
  simp only [createNode, nodes]
  rw [wf.nodeArena.entries_insert, List.map_append]
  rfl

theorem edges_createNode (value : N) : (g.createNode value).2.edges = g.edges := rfl

theorem node?_createNode (wf : g.WellFormed) (value : N) (id : NodeId) :
    (g.createNode value).2.node? id =
      if id = (g.createNode value).1 then some { value } else g.node? id := by
  have new := wf.nodeArena.get?_insert { value } id.handle
  have same : id.handle = g.nodeArena.nextHandle ↔ id = (g.createNode value).1 :=
    NodeId.handle_inj (b := (g.createNode value).1)
  simp only [same] at new
  exact new

theorem createNode_stale (wf : g.WellFormed) (value : N) :
    ¬ g.contains (g.createNode value).1 := by
  have stale := wf.nodeArena.nextHandle_stale
  simp [contains, node?, createNode, Arena.insert, stale]

theorem nodes_setNode (id : NodeId) (value : N) :
    (g.setNode id value).nodes = g.nodes.map fun n => if n.1 = id then (n.1, value) else n := by
  simp only [setNode, modifyNode, nodes, Arena.entries_modify, List.map_map]
  refine List.map_congr_left fun e _ => ?_
  obtain ⟨handle, node⟩ := e
  by_cases same : handle = id.handle
  · subst same
    simp
  · have differ : NodeId.mk handle ≠ id := fun eq => same (eq ▸ rfl)
    simp [same, differ]

theorem edges_setNode (id : NodeId) (value : N) : (g.setNode id value).edges = g.edges := rfl

theorem nodes_mapNodes (f : N → N) :
    (g.mapNodes f).nodes = g.nodes.map fun n => (n.1, f n.2) := by
  simp only [mapNodes, nodes, Arena.entries_map, List.map_map]
  rfl

/-- A new edge needs live ends, and nothing else. -/
theorem createEdge?_isSome_iff (source target : NodeId) (value : E) :
    (g.createEdge? source target value).isSome ↔ g.contains source ∧ g.contains target := by
  simp only [createEdge?]
  split <;> simp_all

/-- The graph with one more edge, as `createEdge?` makes it. -/
def link (g : Graph N E) (source target : NodeId) (value : E) : Graph N E :=
  g.relink (g.edgeArena.insert ⟨source, target, value⟩).2 source target
    (· ++ [⟨g.edgeArena.nextHandle⟩]) (· ++ [⟨g.edgeArena.nextHandle⟩])

theorem createEdge?_eq_some (source target : NodeId) (value : E) (id : EdgeId) (h : Graph N E) :
    g.createEdge? source target value = some (id, h) ↔
      (g.contains source ∧ g.contains target) ∧ id = ⟨g.edgeArena.nextHandle⟩ ∧
        h = g.link source target value := by
  simp only [createEdge?]
  split
  · next live =>
    simp only [Option.some.injEq, Prod.mk.injEq, live, and_self, true_and]
    exact and_congr eq_comm eq_comm
  · next stale => simp [stale]

theorem nodes_link (source target : NodeId) (value : E) :
    (g.link source target value).nodes = g.nodes :=
  nodes_relink ..

theorem edges_link (wf : g.WellFormed) (source target : NodeId) (value : E) :
    (g.link source target value).edges =
      g.edges ++ [(⟨g.edgeArena.nextHandle⟩, ⟨source, target, value⟩)] := by
  rw [edges, link, edgeArena_relink, wf.edgeArena.entries_insert, List.map_append]
  rfl

theorem removeEdge_eq {id : EdgeId} {edge : Edge E} (found : g.edge? id = some edge) :
    g.removeEdge id =
      g.relink (g.edgeArena.erase id.handle) edge.source edge.target
        (·.filter (· ≠ id)) (·.filter (· ≠ id)) := by
  rw [removeEdge, found]
  rfl

theorem nodes_removeEdge (id : EdgeId) : (g.removeEdge id).nodes = g.nodes := by
  cases found : g.edge? id with
  | none => rw [removeEdge, found]
  | some edge => rw [removeEdge_eq found, nodes_relink]

theorem edges_removeEdge (id : EdgeId) :
    (g.removeEdge id).edges = g.edges.filter (·.1 ≠ id) := by
  have listed : (g.edgeArena.erase id.handle).entries.map (fun e => (EdgeId.mk e.1, e.2)) =
      g.edges.filter (·.1 ≠ id) := by
    rw [Arena.entries_erase, edges, List.filter_map]
    congr 1
    refine List.filter_congr fun e _ => ?_
    simp [← EdgeId.handle_inj]
  rw [← listed]
  cases found : g.edge? id with
  | none =>
    have erased : g.edgeArena.erase id.handle = g.edgeArena := by
      rw [edge?] at found
      rw [Arena.erase, found]
    rw [removeEdge, found, erased, edges]
  | some edge => rw [removeEdge_eq found, edges, edgeArena_relink]

/-- The loop at the heart of `removeNode`. -/
theorem edges_foldl_removeEdge (ids : List EdgeId) :
    (ids.foldl removeEdge g).edges = g.edges.filter (·.1 ∉ ids) := by
  induction ids generalizing g with
  | nil => simp
  | cons id ids ih =>
    rw [List.foldl_cons, ih, edges_removeEdge, List.filter_filter]
    refine List.filter_congr fun e _ => ?_
    by_cases same : e.1 = id <;> simp [same]

theorem nodes_foldl_removeEdge (ids : List EdgeId) : (ids.foldl removeEdge g).nodes = g.nodes := by
  induction ids generalizing g with
  | nil => rfl
  | cons id ids ih => rw [List.foldl_cons, ih, nodes_removeEdge]

theorem nodes_removeNode (id : NodeId) : (g.removeNode id).nodes = g.nodes.filter (·.1 ≠ id) := by
  have cut := nodes_foldl_removeEdge (g := g) (g.outgoing id ++ g.incoming id)
  rw [removeNode, ← cut]
  generalize (g.outgoing id ++ g.incoming id).foldl removeEdge g = h
  simp only [nodes, Arena.entries_erase, List.filter_map]
  congr 1
  refine List.filter_congr fun e _ => ?_
  simp [← NodeId.handle_inj]

/-- Exactly the edges that touch the node go with it. -/
theorem edges_removeNode (wf : g.WellFormed) (id : NodeId) :
    (g.removeNode id).edges = g.edges.filter fun e => e.2.source ≠ id ∧ e.2.target ≠ id := by
  have cut := edges_foldl_removeEdge (g := g) (g.outgoing id ++ g.incoming id)
  have same : (g.removeNode id).edges =
      ((g.outgoing id ++ g.incoming id).foldl removeEdge g).edges := rfl
  rw [same, cut]
  refine List.filter_congr fun e inside => ?_
  have listed {keep : EdgeId × Edge E → Bool} :
      e.1 ∈ (g.edges.filter keep).map (·.1) ↔ keep e := by
    rw [List.mem_map]
    constructor
    · rintro ⟨e', kept, sameId⟩
      rw [List.mem_filter] at kept
      have : e' = e := Prod.ext sameId (edge_unique wf (sameId ▸ kept.1) inside)
      exact this ▸ kept.2
    · exact fun kept => ⟨e, List.mem_filter.mpr ⟨inside, kept⟩, rfl⟩
  simp only [List.mem_append, outgoing_eq_edges wf, incoming_eq_edges wf, listed,
    decide_eq_true_eq, not_or, ne_eq]

theorem edges_setEdge (id : EdgeId) (value : E) :
    (g.setEdge id value).edges =
      g.edges.map fun e => if e.1 = id then (e.1, { e.2 with value }) else e := by
  simp only [setEdge, edges, Arena.entries_modify, List.map_map]
  refine List.map_congr_left fun e _ => ?_
  obtain ⟨handle, edge⟩ := e
  by_cases same : handle = id.handle
  · subst same
    simp
  · have differ : EdgeId.mk handle ≠ id := fun eq => same (eq ▸ rfl)
    simp [same, differ]

/-! ## Every operation keeps the invariant -/

namespace WellFormed

theorem empty : (Graph.empty : Graph N E).WellFormed where
  nodeArena := .empty
  edgeArena := .empty
  live := by simp [ends, edges, Graph.empty, Arena.entries, Arena.empty]
  outgoing_eq id := by
    simp [ends, edges, Graph.empty, Arena.entries, Arena.empty, outgoing, node?, Arena.get?]
  incoming_eq id := by
    simp [ends, edges, Graph.empty, Arena.entries, Arena.empty, incoming, node?, Arena.get?]

theorem createNode (wf : g.WellFormed) (value : N) : (g.createNode value).2.WellFormed := by
  have ends : (g.createNode value).2.ends = g.ends := rfl
  refine ⟨wf.nodeArena.insert _, wf.edgeArena, fun e mem => ?_, fun id => ?_, fun id => ?_⟩
  -- the new node had no edges before, since it was stale
  · have live := wf.live e (ends ▸ mem)
    simp only [contains, node?_createNode wf] at live ⊢
    constructor <;> split <;> simp_all
  · rw [ends, ← wf.outgoing_eq]
    simp only [outgoing, node?_createNode wf]
    split
    · next new =>
      subst new
      exact (outgoing_of_stale (createNode_stale wf value)).symm
    · rfl
  · rw [ends, ← wf.incoming_eq]
    simp only [incoming, node?_createNode wf]
    split
    · next new =>
      subst new
      exact (incoming_of_stale (createNode_stale wf value)).symm
    · rfl

theorem of_revalued_nodes (wf : g.WellFormed) {arena : Arena (Node N)}
    (revalued : g.nodeArena.Revalued
      (fun a b => a.outgoing = b.outgoing ∧ a.incoming = b.incoming) arena) :
    WellFormed { g with nodeArena := arena } := by
  have nodes (id : NodeId) := revalued.get? id.handle
  refine ⟨revalued.wellFormed wf.nodeArena, wf.edgeArena, fun e mem => ?_, fun id => ?_,
    fun id => ?_⟩
  · have live := wf.live e mem
    have first := nodes e.2.1
    have second := nodes e.2.2
    simp only [contains, node?] at live ⊢
    generalize g.nodeArena.get? e.2.1.handle = a at live first
    generalize g.nodeArena.get? e.2.2.handle = b at live second
    generalize arena.get? e.2.1.handle = a' at first ⊢
    generalize arena.get? e.2.2.handle = b' at second ⊢
    cases first <;> cases second <;> simp_all
  · refine Eq.trans ?_ (wf.outgoing_eq id)
    have same := nodes id
    simp only [outgoing, node?]
    generalize g.nodeArena.get? id.handle = a at same
    generalize arena.get? id.handle = b at same
    cases same with
    | none => rfl
    | some both => simp [both.1]
  · refine Eq.trans ?_ (wf.incoming_eq id)
    have same := nodes id
    simp only [incoming, node?]
    generalize g.nodeArena.get? id.handle = a at same
    generalize arena.get? id.handle = b at same
    cases same with
    | none => rfl
    | some both => simp [both.2]

theorem setNode (wf : g.WellFormed) (id : NodeId) (value : N) : (g.setNode id value).WellFormed := by
  apply wf.of_revalued_nodes
  apply Arena.Revalued.of_modify
  · exact fun _ => ⟨rfl, rfl⟩
  · exact fun _ _ => ⟨rfl, rfl⟩

theorem mapNodes (wf : g.WellFormed) (f : N → N) : (g.mapNodes f).WellFormed := by
  apply wf.of_revalued_nodes
  apply Arena.Revalued.of_map
  exact fun _ => ⟨rfl, rfl⟩

theorem assignNodes (wf : g.WellFormed) (values : List N) : (g.assignNodes values).WellFormed := by
  apply wf.of_revalued_nodes
  apply Arena.Revalued.of_zipSlots
  · exact fun _ => ⟨rfl, rfl⟩
  · exact fun _ _ => ⟨rfl, rfl⟩

theorem setEdge (wf : g.WellFormed) (id : EdgeId) (value : E) : (g.setEdge id value).WellFormed := by
  have revalued : g.edgeArena.Revalued
      (fun a b => (a.source, a.target) = (b.source, b.target)) (g.setEdge id value).edgeArena := by
    apply Arena.Revalued.of_modify
    · exact fun _ => rfl
    · exact fun _ _ => rfl
  have ends : (g.setEdge id value).ends = g.ends := by
    have listed := congrArg (List.map fun e : Handle × NodeId × NodeId => (EdgeId.mk e.1, e.2))
      (revalued.entries (fun e => (e.source, e.target)) fun _ _ same => same)
    simp only [Graph.ends, edges, List.map_map] at listed ⊢
    exact listed
  refine ⟨wf.nodeArena, revalued.wellFormed wf.edgeArena, fun e mem => ?_, fun id => ?_,
    fun id => ?_⟩
  · exact wf.live e (ends ▸ mem)
  · exact ends ▸ wf.outgoing_eq id
  · exact ends ▸ wf.incoming_eq id

theorem link (wf : g.WellFormed) {source target : NodeId} (sourceLive : g.contains source)
    (targetLive : g.contains target) (value : E) : (g.link source target value).WellFormed := by
  have ends : (g.link source target value).ends =
      g.ends ++ [(⟨g.edgeArena.nextHandle⟩, source, target)] := by
    simp only [Graph.ends, edges_link wf, List.map_append]
    rfl
  refine ⟨nodeArena_relink _ _ _ _ _ wf.nodeArena, wf.edgeArena.insert _, fun e mem => ?_,
    fun id => ?_, fun id => ?_⟩
  · rw [Graph.link, contains_relink, contains_relink]
    rw [ends, List.mem_append, List.mem_singleton] at mem
    rcases mem with old | rfl
    · exact wf.live e old
    · exact ⟨sourceLive, targetLive⟩
  · rw [ends, List.filter_append, List.map_append, ← wf.outgoing_eq, Graph.link,
      outgoing_relink _ _ _ _ _ sourceLive]
    by_cases same : id = source
    · simp [same]
    · simp [same, Ne.symm same]
  · rw [ends, List.filter_append, List.map_append, ← wf.incoming_eq, Graph.link,
      incoming_relink _ _ _ _ _ targetLive]
    by_cases same : id = target
    · simp [same]
    · simp [same, Ne.symm same]

theorem removeEdge (wf : g.WellFormed) (id : EdgeId) : (g.removeEdge id).WellFormed := by
  cases found : g.edge? id with
  | none => rwa [Graph.removeEdge, found]
  | some edge =>
    have mem : (id, edge) ∈ g.edges := (edge?_eq_some_iff wf).mp found
    have live := wf.live _ (List.mem_map.mpr ⟨_, mem, rfl⟩)
    have ends : (g.removeEdge id).ends = g.ends.filter (·.1 ≠ id) := by
      simp only [Graph.ends, edges_removeEdge, List.filter_map]
      rfl
    -- the edge is listed at its own ends alone, so the lists of all other nodes stay as they are
    have elsewhere {n : NodeId} {keep : EdgeId × NodeId × NodeId → Bool}
        (away : keep (id, edge.source, edge.target) = false) :
        ((g.ends.filter (·.1 ≠ id)).filter keep) = g.ends.filter keep := by
      rw [List.filter_filter]
      refine List.filter_congr fun e inside => ?_
      obtain ⟨⟨id', edge'⟩, listed, rfl⟩ := List.mem_map.mp inside
      by_cases same : id' = id
      · subst same
        simp [edge_unique wf listed mem, away]
      · simp [same]
    rw [removeEdge_eq found] at ends ⊢
    refine ⟨nodeArena_relink _ _ _ _ _ wf.nodeArena, wf.edgeArena.erase _, fun e inside => ?_,
      fun n => ?_, fun n => ?_⟩
    · rw [contains_relink, contains_relink]
      rw [ends] at inside
      exact wf.live e (List.mem_filter.mp inside).1
    · rw [ends, outgoing_relink _ _ _ _ _ live.1]
      by_cases same : n = edge.source
      · simp only [same, if_true, wf.outgoing_eq, List.filter_map, List.filter_filter]
        simp only [Function.comp_def, Bool.and_comm]
      · rw [if_neg same, elsewhere (n := n) (by simpa using Ne.symm same), wf.outgoing_eq]
    · rw [ends, incoming_relink _ _ _ _ _ live.2]
      by_cases same : n = edge.target
      · simp only [same, if_true, wf.incoming_eq, List.filter_map, List.filter_filter]
        simp only [Function.comp_def, Bool.and_comm]
      · rw [if_neg same, elsewhere (n := n) (by simpa using Ne.symm same), wf.incoming_eq]

theorem foldl_removeEdge (wf : g.WellFormed) (ids : List EdgeId) :
    (ids.foldl Graph.removeEdge g).WellFormed := by
  induction ids generalizing g with
  | nil => exact wf
  | cons id ids ih => exact ih (wf.removeEdge id)

theorem removeNode (wf : g.WellFormed) (id : NodeId) : (g.removeNode id).WellFormed := by
  have cut := wf.foldl_removeEdge (g.outgoing id ++ g.incoming id)
  -- both lists are complete, so once their edges are gone no edge has an end at the node
  have apart : ∀ e ∈ ((g.outgoing id ++ g.incoming id).foldl Graph.removeEdge g).edges,
      e.2.source ≠ id ∧ e.2.target ≠ id := by
    intro e mem
    rw [edges_foldl_removeEdge, List.mem_filter] at mem
    obtain ⟨inside, kept⟩ := mem
    simp only [List.mem_append, decide_not, Bool.not_eq_true', decide_eq_false_iff_not, not_or,
      outgoing_eq_edges wf, incoming_eq_edges wf, List.mem_map, List.mem_filter,
      decide_eq_true_eq] at kept
    exact ⟨fun source => kept.1 ⟨e, ⟨inside, source⟩, rfl⟩,
      fun target => kept.2 ⟨e, ⟨inside, target⟩, rfl⟩⟩
  rw [Graph.removeNode]
  generalize (g.outgoing id ++ g.incoming id).foldl Graph.removeEdge g = h at cut apart
  have node (n : NodeId) : node? { h with nodeArena := h.nodeArena.erase id.handle } n =
      if n = id then none else h.node? n := by
    simp only [node?, Arena.get?_erase, NodeId.handle_inj]
  have apartEnds : ∀ e ∈ h.ends, e.2.1 ≠ id ∧ e.2.2 ≠ id := by
    intro e mem
    obtain ⟨e, listed, rfl⟩ := List.mem_map.mp mem
    exact apart e listed
  refine ⟨cut.nodeArena.erase _, cut.edgeArena, fun e mem => ?_, fun n => ?_, fun n => ?_⟩
  · have live := cut.live e mem
    have ne := apartEnds e mem
    simpa only [contains, node, ne.1, ne.2, if_false] using live
  · refine Eq.trans ?_ (cut.outgoing_eq n)
    by_cases same : n = id
    · rw [same, outgoing_eq_nil cut fun e mem => (apartEnds e mem).1, outgoing, node, if_pos rfl]
      rfl
    · rw [outgoing, node, if_neg same, outgoing]
  · refine Eq.trans ?_ (cut.incoming_eq n)
    by_cases same : n = id
    · rw [same, incoming_eq_nil cut fun e mem => (apartEnds e mem).2, incoming, node, if_pos rfl]
      rfl
    · rw [incoming, node, if_neg same, incoming]

end WellFormed

/-! ## Reachable graphs -/

/-- The graphs that the operations make. A handle may come from anywhere. -/
inductive Reachable : Graph N E → Prop where
  | empty : Reachable empty
  | createNode {g : Graph N E} (value : N) : Reachable g → Reachable (g.createNode value).2
  | createEdge {g h : Graph N E} {source target : NodeId} {value : E} {id : EdgeId} :
      Reachable g → g.createEdge? source target value = some (id, h) → Reachable h
  | removeNode {g : Graph N E} (id : NodeId) : Reachable g → Reachable (g.removeNode id)
  | removeEdge {g : Graph N E} (id : EdgeId) : Reachable g → Reachable (g.removeEdge id)
  | setNode {g : Graph N E} (id : NodeId) (value : N) : Reachable g → Reachable (g.setNode id value)
  | setEdge {g : Graph N E} (id : EdgeId) (value : E) : Reachable g → Reachable (g.setEdge id value)
  | mapNodes {g : Graph N E} (f : N → N) : Reachable g → Reachable (g.mapNodes f)
  | assignNodes {g : Graph N E} (values : List N) : Reachable g → Reachable (g.assignNodes values)
  | clear {g : Graph N E} : Reachable g → Reachable g.clear

theorem Reachable.wellFormed (reachable : Reachable g) : g.WellFormed := by
  induction reachable with
  | empty => exact .empty
  | createNode value _ wf => exact wf.createNode value
  | createEdge _ made wf =>
    obtain ⟨live, _, rfl⟩ := (createEdge?_eq_some ..).mp made
    exact wf.link live.1 live.2 _
  | removeNode id _ wf => exact wf.removeNode id
  | removeEdge id _ wf => exact wf.removeEdge id
  | setNode id value _ wf => exact wf.setNode id value
  | setEdge id value _ wf => exact wf.setEdge id value
  | mapNodes f _ wf => exact wf.mapNodes f
  | assignNodes values _ wf => exact wf.assignNodes values
  | clear _ _ => exact .empty

end Graph

end Tangible
