import Tangible.Proofs.Graph.Multigraph

/-!
# Graphs as multigraphs

`Held` is a graph together with the handles that it has returned since it was cleared; whoever
clears a graph gives up its handles. `Held.seen` puts numbers in the place of the handles. Every
change does to the graph what it does to the multigraph (`Held.Sound.seen_apply`), so the same
changes lead to the same multigraph, and every observation of the graph is one of the multigraph
(`Held.refines`).
-/

namespace Tangible

variable {N E : Type}

/-- A graph and the handles that it has returned since it was cleared, in order. The number of an
element is the place of its handle. -/
structure Held (N E : Type) where
  graph : Graph N E := .empty
  nodeIds : List NodeId := []
  edgeIds : List EdgeId := []
  /-- The number of insertions in all, those before a clear included. -/
  inserted : Nat := 0

namespace Held

open Tangible.Graph

variable {h : Held N E} {r : Ref}

/-- The change with handles in the place of numbers, if there are such handles. -/
def resolve (h : Held N E) : Change Nat Nat N E → Option (Change NodeId EdgeId N E)
  | .createNode value => some (.createNode value)
  | .createEdge source target value => do
    return .createEdge (← h.nodeIds[source]?) (← h.nodeIds[target]?) value
  | .removeNode n => h.nodeIds[n]?.map .removeNode
  | .removeEdge n => h.edgeIds[n]?.map .removeEdge
  | .setNode n value => h.nodeIds[n]?.map (.setNode · value)
  | .setEdge n value => h.edgeIds[n]?.map (.setEdge · value)
  | .mapNodes f => some (.mapNodes f)
  | .clear => some .clear

def note (h : Held N E) : Option Ref → Held N E
  | none => h
  | some (.node id) => { h with nodeIds := h.nodeIds ++ [id], inserted := h.inserted + 1 }
  | some (.edge id) => { h with edgeIds := h.edgeIds ++ [id], inserted := h.inserted + 1 }

/-- Notes the handle that the graph returns. After a clear no handle is kept. -/
def perform (h : Held N E) : Change NodeId EdgeId N E → Held N E
  | .clear => { graph := h.graph.clear, inserted := h.inserted }
  | change => { h with graph := h.graph.apply change }.note (h.graph.issued change)

/-- A number that stands for no handle changes nothing. -/
def apply (h : Held N E) (change : Change Nat Nat N E) : Held N E :=
  ((h.resolve change).map h.perform).getD h

def applyAll (h : Held N E) (changes : List (Change Nat Nat N E)) : Held N E :=
  changes.foldl apply h

def arrow (h : Held N E) (edge : Edge E) : Arrow E :=
  ⟨h.nodeIds.idxOf edge.source, h.nodeIds.idxOf edge.target, edge.value⟩

def numbered (h : Held N E) (e : EdgeId × Edge E) : Nat × Arrow E :=
  (h.edgeIds.idxOf e.1, h.arrow e.2)

/-- The graph with numbers in the place of handles. -/
def seen (h : Held N E) : Multigraph N E where
  nodes := h.graph.nodes.map fun n => (h.nodeIds.idxOf n.1, n.2)
  edges := h.graph.edges.map h.numbered
  nextNode := h.nodeIds.length
  nextEdge := h.edgeIds.length

def Holds (h : Held N E) : Ref → Prop
  | .node id => id ∈ h.nodeIds
  | .edge id => id ∈ h.edgeIds

/-- All live handles are held, each once, and the handles that are held are live or spent. -/
structure Sound (h : Held N E) : Prop where
  wellFormed : h.graph.WellFormed
  aged : h.graph.Aged h.inserted
  nodeIds_nodup : h.nodeIds.Nodup
  edgeIds_nodup : h.edgeIds.Nodup
  holds : ∀ r, h.graph.Resolves r → h.Holds r
  known : ∀ r, h.Holds r → h.graph.Resolves r ∨ h.graph.Spent r

/-! ## The handles that are held -/

theorem perform_eq {change : Change NodeId EdgeId N E} (kept : change ≠ .clear) :
    h.perform change =
      { h with graph := h.graph.apply change }.note (h.graph.issued change) := by
  cases change with
  | clear => exact absurd rfl kept
  | _ => rfl

theorem graph_note (x : Option Ref) : (h.note x).graph = h.graph := by
  unfold note
  split <;> rfl

theorem inserted_note (x : Option Ref) : (h.note x).inserted = h.inserted + x.toList.length := by
  unfold note
  split <;> rfl

theorem holds_note (x : Option Ref) : (h.note x).Holds r ↔ h.Holds r ∨ x = some r := by
  rcases x with _ | (id | id)
  · simp [note]
  · cases r <;> simp [note, Holds, eq_comm]
  · cases r <;> simp [note, Holds, eq_comm]

theorem inserted_perform (change : Change NodeId EdgeId N E) :
    (h.perform change).inserted = h.inserted + (h.graph.issued change).toList.length := by
  cases change with
  | clear => rfl
  | _ => rw [perform_eq (by simp), inserted_note]

namespace Sound

theorem empty : ({} : Held N E).Sound := by
  refine ⟨.empty, .empty, List.nodup_nil, List.nodup_nil, fun r live => ?_, fun r held => ?_⟩
  · rcases r with id | id
    · simp [Resolves, value?, node?, Graph.empty, Arena.empty, Arena.get?] at live
    · simp [Resolves, edge?, Graph.empty, Arena.empty, Arena.get?] at live
  · rcases r with id | id <;> simp [Holds] at held

/-- A handle that is held is not returned again. -/
theorem fresh (sound : h.Sound) {change : Change NodeId EdgeId N E}
    (issued : h.graph.issued change = some r) : ¬ h.Holds r := by
  intro held
  rcases sound.known r held with live | spent
  · exact stale_of_issued sound.wellFormed issued live
  · exact spent.not_issued change issued

theorem perform (sound : h.Sound) (change : Change NodeId EdgeId N E)
    (few : (h.perform change).inserted < 2 ^ 32) : (h.perform change).Sound := by
  by_cases cleared : change = .clear
  · subst cleared
    have blank := empty (N := N) (E := E)
    exact ⟨blank.wellFormed, blank.aged.mono (Nat.zero_le _), blank.nodeIds_nodup,
      blank.edgeIds_nodup, blank.holds, blank.known⟩
  have later : h.graph.Later (h.graph.apply change) (h.graph.issued change).toList.length :=
    .apply cleared
  rw [inserted_perform] at few
  rw [perform_eq cleared]
  refine ⟨?_, ?_, ?_, ?_, fun r live => ?_, fun r held => ?_⟩
  · rw [graph_note]
    exact sound.wellFormed.apply change
  · rw [graph_note, inserted_note]
    exact later.aged sound.wellFormed sound.aged few
  · cases issued : h.graph.issued change with
    | none => exact sound.nodeIds_nodup
    | some r =>
      cases r with
      | node id =>
        have longer := sound.nodeIds_nodup.concat (sound.fresh issued)
        rwa [List.concat_eq_append] at longer
      | edge id => exact sound.nodeIds_nodup
  · cases issued : h.graph.issued change with
    | none => exact sound.edgeIds_nodup
    | some r =>
      cases r with
      | node id => exact sound.edgeIds_nodup
      | edge id =>
        have longer := sound.edgeIds_nodup.concat (sound.fresh issued)
        rwa [List.concat_eq_append] at longer
  · rw [graph_note] at live
    rw [holds_note]
    exact (resolves_or_issued sound.wellFormed live).imp_left (sound.holds r)
  · rw [graph_note]
    rcases (holds_note _).mp held with old | new
    · rcases sound.known r old with live | spent
      · exact later.resolves_or_spent sound.wellFormed sound.aged few live
      · exact .inr (later.spent sound.wellFormed sound.aged few spent)
    · exact .inl (resolves_of_issued sound.wellFormed new)

theorem apply (sound : h.Sound) (change : Change Nat Nat N E)
    (few : (h.apply change).inserted < 2 ^ 32) : (h.apply change).Sound := by
  rw [Held.apply] at few ⊢
  cases resolved : h.resolve change with
  | none => exact sound
  | some change' =>
    rw [resolved] at few
    exact sound.perform change' few

/-! ## What can be seen -/

theorem node_held (sound : h.Sound) {id : NodeId} (live : id ∈ h.graph.nodeIds) :
    id ∈ h.nodeIds :=
  sound.holds (.node id) ((resolves_node_iff sound.wellFormed id).mpr live)

theorem edge_held (sound : h.Sound) {e : EdgeId × Edge E} (inside : e ∈ h.graph.edges) :
    e.1 ∈ h.edgeIds :=
  sound.holds (.edge e.1)
    ((resolves_edge_iff sound.wellFormed e.1).mpr (List.mem_map_of_mem inside))

theorem node_mem (sound : h.Sound) {n : NodeId × N} (inside : n ∈ h.graph.nodes) :
    n.1 ∈ h.nodeIds :=
  sound.node_held (by rw [nodeIds_eq sound.wellFormed]; exact List.mem_map_of_mem inside)

/-- The number of a live node tells the node. -/
theorem nodeNumber_eq_iff (sound : h.Sound) {a b : NodeId} (held : a ∈ h.nodeIds) {n : Nat}
    (place : h.nodeIds[n]? = some b) : h.nodeIds.idxOf a = n ↔ a = b :=
  idxOf_eq_iff sound.nodeIds_nodup held place

theorem edgeNumber_eq_iff (sound : h.Sound) {a b : EdgeId} (held : a ∈ h.edgeIds) {n : Nat}
    (place : h.edgeIds[n]? = some b) : h.edgeIds.idxOf a = n ↔ a = b :=
  idxOf_eq_iff sound.edgeIds_nodup held place

theorem has_seen_iff (sound : h.Sound) {n : Nat} {id : NodeId} (place : h.nodeIds[n]? = some id) :
    h.seen.Has n ↔ h.graph.contains id := by
  rw [← mem_nodeIds sound.wellFormed, nodeIds_eq sound.wellFormed, Multigraph.Has, seen,
    List.map_map, List.mem_map, List.mem_map]
  refine exists_congr fun node => and_congr_right fun inside => ?_
  exact sound.nodeNumber_eq_iff (sound.node_mem inside) place

/-- Numbers that stand for no handle are not in use. -/
theorem not_has_seen (sound : h.Sound) {n : Nat} (none : h.nodeIds[n]? = none) :
    ¬ h.seen.Has n := by
  intro has
  rw [Multigraph.Has, seen, List.map_map] at has
  obtain ⟨node, inside, rfl⟩ := List.mem_map.mp has
  have found := List.getElem?_idxOf (sound.node_mem inside)
  simp only [Function.comp_apply] at none
  rw [found] at none
  simp at none

theorem edgeNumber_absent (sound : h.Sound) {n : Nat} (none : h.edgeIds[n]? = none) :
    n ∉ h.seen.edges.map (·.1) := by
  intro has
  rw [seen, List.map_map] at has
  obtain ⟨e, inside, rfl⟩ := List.mem_map.mp has
  have found := List.getElem?_idxOf (sound.edge_held inside)
  simp only [Function.comp_apply, numbered] at none
  rw [found] at none
  simp at none

theorem ends_held (sound : h.Sound) {e : EdgeId × Edge E} (inside : e ∈ h.graph.edges) :
    e.2.source ∈ h.nodeIds ∧ e.2.target ∈ h.nodeIds :=
  ⟨sound.node_held (source_mem sound.wellFormed inside),
    sound.node_held (target_mem sound.wellFormed inside)⟩

theorem seen_createNode (sound : h.Sound) (value : N) :
    (h.perform (.createNode value)).seen = h.seen.apply (.createNode value) := by
  have issued : h.graph.issued (.createNode value) =
      some (.node (h.graph.createNode value).1) := rfl
  have fresh : (h.graph.createNode value).1 ∉ h.nodeIds := sound.fresh issued
  have old {id : NodeId} (held : id ∈ h.nodeIds) :
      (h.nodeIds ++ [(h.graph.createNode value).1]).idxOf id = h.nodeIds.idxOf id :=
    List.idxOf_append_of_mem held
  have performed : h.perform (.createNode value) =
      { h with
        graph := (h.graph.createNode value).2
        nodeIds := h.nodeIds ++ [(h.graph.createNode value).1]
        inserted := h.inserted + 1 } := rfl
  rw [performed]
  refine Multigraph.ext ?_ ?_ List.length_append rfl
  · show (h.graph.createNode value).2.nodes.map _ = h.graph.nodes.map _ ++ [(_, value)]
    rw [nodes_createNode sound.wellFormed, List.map_append, List.map_singleton, idxOf_concat fresh]
    congr 1
    refine List.map_congr_left fun node inside => ?_
    rw [old (sound.node_mem inside)]
  · refine List.map_congr_left fun e inside => ?_
    have ends := sound.ends_held inside
    simp only [numbered, arrow, old ends.1, old ends.2]

theorem perform_createEdge {source target : NodeId} (value : E)
    (live : h.graph.contains source ∧ h.graph.contains target) :
    h.perform (.createEdge source target value) =
      { h with
        graph := h.graph.link source target value
        edgeIds := h.edgeIds ++ [⟨h.graph.edgeArena.nextHandle⟩]
        inserted := h.inserted + 1 } := by
  rw [perform_eq (by simp), apply_createEdge, issued_createEdge, if_pos live, if_pos live]
  rfl

theorem perform_createEdge_of_stale {source target : NodeId} (value : E)
    (stale : ¬ (h.graph.contains source ∧ h.graph.contains target)) :
    h.perform (.createEdge source target value) = h := by
  rw [perform_eq (by simp), apply_createEdge, issued_createEdge, if_neg stale, if_neg stale]
  rfl

theorem seen_createEdge (sound : h.Sound) {s t : Nat} {source target : NodeId}
    (first : h.nodeIds[s]? = some source) (second : h.nodeIds[t]? = some target) (value : E) :
    (h.perform (.createEdge source target value)).seen =
      h.seen.apply (.createEdge s t value) := by
  have both := and_congr (sound.has_seen_iff first) (sound.has_seen_iff second)
  by_cases live : h.graph.contains source ∧ h.graph.contains target
  · have issued : h.graph.issued (.createEdge source target value) =
        some (.edge ⟨h.graph.edgeArena.nextHandle⟩) := by
      rw [issued_createEdge, if_pos live]
    have fresh : EdgeId.mk h.graph.edgeArena.nextHandle ∉ h.edgeIds := sound.fresh issued
    have s_eq := (sound.nodeNumber_eq_iff (List.mem_of_getElem? first) first).mpr rfl
    have t_eq := (sound.nodeNumber_eq_iff (List.mem_of_getElem? second) second).mpr rfl
    rw [Multigraph.apply, if_pos (both.mpr live), perform_createEdge value live]
    refine Multigraph.ext ?_ ?_ rfl List.length_append
    · show (h.graph.link source target value).nodes.map _ = h.graph.nodes.map _
      rw [nodes_link]
    · show (h.graph.link source target value).edges.map _ =
        h.graph.edges.map _ ++ [(_, Arrow.mk s t value)]
      rw [edges_link sound.wellFormed, List.map_append, List.map_singleton]
      congr 1
      · refine List.map_congr_left fun e inside => ?_
        rw [numbered, List.idxOf_append_of_mem (sound.edge_held inside)]
        rfl
      · rw [numbered, idxOf_concat fresh, arrow, s_eq, t_eq]
        rfl
  · rw [Multigraph.apply, if_neg fun has => live (both.mp has),
      perform_createEdge_of_stale value live]

theorem seen_removeNode (sound : h.Sound) {n : Nat} {id : NodeId}
    (place : h.nodeIds[n]? = some id) :
    (h.perform (.removeNode id)).seen = h.seen.apply (.removeNode n) := by
  refine Multigraph.ext ?_ ?_ rfl rfl
  · show (h.graph.removeNode id).nodes.map _ = (h.graph.nodes.map _).filter _
    rw [nodes_removeNode, List.filter_map]
    congr 1
    refine List.filter_congr fun node inside => ?_
    simp [sound.nodeNumber_eq_iff (sound.node_mem inside) place]
  · show (h.graph.removeNode id).edges.map _ = (h.graph.edges.map _).filter _
    rw [edges_removeNode sound.wellFormed, List.filter_map]
    congr 1
    refine List.filter_congr fun e inside => ?_
    have ends := sound.ends_held inside
    simp [numbered, arrow, sound.nodeNumber_eq_iff ends.1 place,
      sound.nodeNumber_eq_iff ends.2 place]

theorem seen_removeEdge (sound : h.Sound) {n : Nat} {id : EdgeId}
    (place : h.edgeIds[n]? = some id) :
    (h.perform (.removeEdge id)).seen = h.seen.apply (.removeEdge n) := by
  refine Multigraph.ext ?_ ?_ rfl rfl
  · show (h.graph.removeEdge id).nodes.map _ = h.graph.nodes.map _
    rw [nodes_removeEdge]
    rfl
  · show (h.graph.removeEdge id).edges.map _ = (h.graph.edges.map _).filter _
    rw [edges_removeEdge, List.filter_map]
    congr 1
    refine List.filter_congr fun e inside => ?_
    simp [numbered, sound.edgeNumber_eq_iff (sound.edge_held inside) place]

theorem seen_setNode (sound : h.Sound) {n : Nat} {id : NodeId}
    (place : h.nodeIds[n]? = some id) (value : N) :
    (h.perform (.setNode id value)).seen = h.seen.apply (.setNode n value) := by
  refine Multigraph.ext ?_ rfl rfl rfl
  show (h.graph.setNode id value).nodes.map _ = (h.graph.nodes.map _).map _
  rw [nodes_setNode, List.map_map, List.map_map]
  refine List.map_congr_left fun node inside => ?_
  simp only [Function.comp_apply, sound.nodeNumber_eq_iff (sound.node_mem inside) place]
  split <;> rfl

theorem seen_setEdge (sound : h.Sound) {n : Nat} {id : EdgeId}
    (place : h.edgeIds[n]? = some id) (value : E) :
    (h.perform (.setEdge id value)).seen = h.seen.apply (.setEdge n value) := by
  refine Multigraph.ext rfl ?_ rfl rfl
  show (h.graph.setEdge id value).edges.map _ = (h.graph.edges.map _).map _
  rw [edges_setEdge, List.map_map, List.map_map]
  refine List.map_congr_left fun e inside => ?_
  simp only [Function.comp_apply, numbered,
    sound.edgeNumber_eq_iff (sound.edge_held inside) place]
  split <;> rfl

theorem seen_mapNodes (f : N → N) :
    (h.perform (.mapNodes f)).seen = h.seen.apply (.mapNodes f) := by
  refine Multigraph.ext ?_ rfl rfl rfl
  show (h.graph.mapNodes f).nodes.map _ = (h.graph.nodes.map _).map _
  rw [nodes_mapNodes, List.map_map, List.map_map]
  rfl

theorem seen_apply (sound : h.Sound) (ordered : h.seen.Ordered) (change : Change Nat Nat N E) :
    (h.apply change).seen = h.seen.apply change := by
  cases change with
  | createNode value => exact sound.seen_createNode value
  | createEdge s t value =>
    cases first : h.nodeIds[s]? with
    | none => simp [Held.apply, resolve, first, Multigraph.apply, sound.not_has_seen first]
    | some source =>
      cases second : h.nodeIds[t]? with
      | none =>
        simp [Held.apply, resolve, first, second, Multigraph.apply, sound.not_has_seen second]
      | some target =>
        rw [← sound.seen_createEdge first second]
        simp [Held.apply, resolve, first, second]
  | removeNode n =>
    cases place : h.nodeIds[n]? with
    | none =>
      rw [Multigraph.apply_removeNode_of_absent ordered (sound.not_has_seen place)]
      simp [Held.apply, resolve, place]
    | some id =>
      rw [← sound.seen_removeNode place]
      simp [Held.apply, resolve, place]
  | removeEdge n =>
    cases place : h.edgeIds[n]? with
    | none =>
      rw [Multigraph.apply_removeEdge_of_absent (sound.edgeNumber_absent place)]
      simp [Held.apply, resolve, place]
    | some id =>
      rw [← sound.seen_removeEdge place]
      simp [Held.apply, resolve, place]
  | setNode n value =>
    cases place : h.nodeIds[n]? with
    | none =>
      have same := Multigraph.map_update_of_absent (sound.not_has_seen place) fun _ => value
      rw [Multigraph.apply, same]
      simp [Held.apply, resolve, place]
    | some id =>
      rw [← sound.seen_setNode place]
      simp [Held.apply, resolve, place]
  | setEdge n value =>
    cases place : h.edgeIds[n]? with
    | none =>
      have same := Multigraph.map_update_of_absent (sound.edgeNumber_absent place)
        fun edge => { edge with value }
      rw [Multigraph.apply, same]
      simp [Held.apply, resolve, place]
    | some id =>
      rw [← sound.seen_setEdge place]
      simp [Held.apply, resolve, place]
  | mapNodes f => exact seen_mapNodes f
  | clear => rfl

end Sound

/-! ## Whole histories -/

theorem inserted_le_apply (h : Held N E) (change : Change Nat Nat N E) :
    h.inserted ≤ (h.apply change).inserted := by
  rw [apply]
  cases h.resolve change with
  | none => exact Nat.le_refl _
  | some change' =>
    show h.inserted ≤ (h.perform change').inserted
    rw [inserted_perform]
    exact Nat.le_add_right _ _

theorem inserted_le_applyAll (h : Held N E) (changes : List (Change Nat Nat N E)) :
    h.inserted ≤ (h.applyAll changes).inserted := by
  induction changes generalizing h with
  | nil => exact Nat.le_refl _
  | cons change changes ih => exact Nat.le_trans (h.inserted_le_apply change) (ih _)

theorem Sound.applyAll (sound : h.Sound) (ordered : h.seen.Ordered)
    {changes : List (Change Nat Nat N E)} (few : (h.applyAll changes).inserted < 2 ^ 32) :
    (h.applyAll changes).Sound ∧ (h.applyAll changes).seen = h.seen.applyAll changes := by
  induction changes generalizing h with
  | nil => exact ⟨sound, rfl⟩
  | cons change changes ih =>
    have fewer := Nat.lt_of_le_of_lt (inserted_le_applyAll (h.apply change) changes) few
    have seen := sound.seen_apply ordered change
    obtain ⟨sound', seen'⟩ := ih (sound.apply change fewer) (seen ▸ ordered.apply change) few
    exact ⟨sound', seen'.trans (congrArg (·.applyAll changes) seen)⟩

/-! ## Observations -/

/-- Every observation of the graph is one of the multigraph. -/
structure Shows (h : Held N E) (m : Multigraph N E) : Prop where
  seen : h.seen = m
  nodeIds : h.graph.nodeIds.map (h.nodeIds.idxOf ·) = m.nodes.map (·.1)
  nodeCount : h.graph.nodeCount = m.nodes.length
  edgeCount : h.graph.edgeCount = m.edges.length
  /-- A handle finds the element that it was returned for, or nothing. -/
  value? : ∀ n id, h.nodeIds[n]? = some id →
    ∀ value, h.graph.value? id = some value ↔ (n, value) ∈ m.nodes
  edge? : ∀ n id, h.edgeIds[n]? = some id →
    ∀ arrow, (h.graph.edge? id).map h.arrow = some arrow ↔ (n, arrow) ∈ m.edges
  outEdges : ∀ n id, h.nodeIds[n]? = some id →
    (h.graph.outEdges id).map h.numbered = m.outEdges n ∧
      h.graph.outDegree id = (m.outEdges n).length
  inEdges : ∀ n id, h.nodeIds[n]? = some id →
    (h.graph.inEdges id).map h.numbered = m.inEdges n ∧
      h.graph.inDegree id = (m.inEdges n).length
  createEdge? : ∀ s t source target, h.nodeIds[s]? = some source → h.nodeIds[t]? = some target →
    ∀ value, h.graph.createEdge? source target value = none ↔ ¬ (m.Has s ∧ m.Has t)
  /-- Edges connect live nodes and are listed once at either end, and nowhere else. -/
  listed : ∀ e ∈ h.graph.edges, h.graph.contains e.2.source ∧ h.graph.contains e.2.target ∧
    ∀ id, ((h.graph.outEdges id).map (·.1)).count e.1 = (if e.2.source = id then 1 else 0) ∧
      ((h.graph.inEdges id).map (·.1)).count e.1 = if e.2.target = id then 1 else 0
  distinct : h.graph.nodeIds.Nodup ∧ (h.graph.edges.map (·.1)).Nodup
  inRange : h.graph.InRange
  /-- The handles that were returned lose nothing of the numbers of their slots in 32 bits. -/
  narrow : ∀ r, h.Holds r → r.handle.index.toNat = r.handle.slot

/-- The edges with one end at a node are those with that end at its number. -/
theorem Sound.numbered_filter (sound : h.Sound) {n : Nat} {id : NodeId}
    (place : h.nodeIds[n]? = some id) (endOf : Edge E → NodeId) {numberOf : Arrow E → Nat}
    (number : ∀ edge, numberOf (h.arrow edge) = h.nodeIds.idxOf (endOf edge))
    (held : ∀ e ∈ h.graph.edges, endOf e.2 ∈ h.nodeIds) :
    (h.graph.edges.filter (endOf ·.2 = id)).map h.numbered =
      h.seen.edges.filter (numberOf ·.2 = n) := by
  show _ = (h.graph.edges.map h.numbered).filter _
  rw [List.filter_map]
  congr 1
  refine List.filter_congr fun e inside => ?_
  simp [numbered, number, sound.nodeNumber_eq_iff (held e inside) place]

theorem Sound.shows (sound : h.Sound) (few : h.inserted < 2 ^ 32) : h.Shows h.seen := by
  have wf := sound.wellFormed
  constructor
  · rfl
  · show _ = (h.graph.nodes.map _).map _
    rw [nodeIds_eq wf, List.map_map, List.map_map]
    rfl
  · show _ = (h.graph.nodes.map _).length
    rw [nodeCount_eq wf, List.length_map]
  · show _ = (h.graph.edges.map _).length
    rw [edgeCount_eq wf, List.length_map]
  · intro n id place value
    show _ ↔ _ ∈ h.graph.nodes.map _
    rw [value?_eq_some_iff wf, List.mem_map]
    constructor
    · intro inside
      have number := (sound.nodeNumber_eq_iff (sound.node_mem inside) place).mpr rfl
      exact ⟨(id, value), inside, Prod.ext number rfl⟩
    · rintro ⟨⟨id', value'⟩, inside, same⟩
      rw [Prod.mk.injEq] at same
      obtain rfl := (sound.nodeNumber_eq_iff (sound.node_mem inside) place).mp same.1
      exact same.2 ▸ inside
  · intro n id place arrow
    show _ ↔ _ ∈ h.graph.edges.map _
    rw [Option.map_eq_some_iff, List.mem_map]
    constructor
    · rintro ⟨edge, found, rfl⟩
      have inside := (edge?_eq_some_iff wf).mp found
      have number := (sound.edgeNumber_eq_iff (sound.edge_held inside) place).mpr rfl
      exact ⟨(id, edge), inside, Prod.ext number rfl⟩
    · rintro ⟨⟨id', edge⟩, inside, same⟩
      rw [numbered, Prod.mk.injEq] at same
      obtain rfl := (sound.edgeNumber_eq_iff (sound.edge_held inside) place).mp same.1
      exact ⟨edge, (edge?_eq_some_iff wf).mpr inside, same.2⟩
  · intro n id place
    have listed : (h.graph.outEdges id).map h.numbered = h.seen.outEdges n := by
      rw [outEdges_eq wf]
      exact sound.numbered_filter place (·.source) (fun _ => rfl) fun e inside =>
        (sound.ends_held inside).1
    refine ⟨listed, ?_⟩
    rw [← listed, List.length_map, outEdges_eq wf, outDegree_eq wf, List.countP_eq_length_filter]
  · intro n id place
    have listed : (h.graph.inEdges id).map h.numbered = h.seen.inEdges n := by
      rw [inEdges_eq wf]
      exact sound.numbered_filter place (·.target) (fun _ => rfl) fun e inside =>
        (sound.ends_held inside).2
    refine ⟨listed, ?_⟩
    rw [← listed, List.length_map, inEdges_eq wf, inDegree_eq wf, List.countP_eq_length_filter]
  · intro s t source target first second value
    rw [← Option.not_isSome_iff_eq_none, createEdge?_isSome_iff, sound.has_seen_iff first,
      sound.has_seen_iff second]
  · intro e inside
    exact ⟨(mem_nodeIds wf).mp (source_mem wf inside), (mem_nodeIds wf).mp (target_mem wf inside),
      fun id => ⟨count_outEdges wf inside id, count_inEdges wf inside id⟩⟩
  · exact ⟨Graph.nodeIds_nodup wf, Graph.edgeIds_nodup wf⟩
  · exact sound.aged.inRange wf few
  · exact fun r held => (sound.aged.inRange wf few).toNat_index (sound.known r held)

/-- The same changes lead to the same multigraph, with fewer than `2 ^ 32` insertions. -/
theorem refines (changes : List (Change Nat Nat N E))
    (few : (applyAll {} changes).inserted < 2 ^ 32) :
    (applyAll {} changes).Shows (Multigraph.applyAll {} changes) ∧
      (Multigraph.applyAll {} changes).Ordered := by
  obtain ⟨sound, seen⟩ := Sound.empty.applyAll .empty few
  exact ⟨seen ▸ sound.shows few, Multigraph.Ordered.empty.applyAll changes⟩

/-- A loop and two parallel edges; a node goes and comes back in its slot, and a change names a
number that is not there. After the clear the numbers begin anew. -/
def crowded : List (Change Nat Nat Nat Nat) :=
  [.createNode 1, .clear, .createNode 10, .createNode 20, .createEdge 0 1 7, .createEdge 0 1 7,
    .createEdge 1 1 8, .createEdge 0 0 9, .removeNode 1, .createNode 30, .createEdge 2 0 5,
    .setNode 1 40, .removeEdge 9, .setEdge 3 6]

theorem refines_crowded :
    (applyAll {} crowded).inserted < 2 ^ 32 ∧
      (applyAll {} crowded).graph.nodeIds = [⟨0, 0⟩, ⟨1, 1⟩] ∧
      (applyAll {} crowded).graph.edges.map (·.1) = [⟨3, 0⟩, ⟨1, 1⟩] ∧
      (Multigraph.applyAll {} crowded).nodes = [(0, 10), (2, 30)] ∧
      (applyAll {} crowded).Shows (Multigraph.applyAll {} crowded) := by
  have few : (applyAll {} crowded).inserted < 2 ^ 32 := by decide
  exact ⟨few, by decide, by decide, by decide, (refines crowded few).1⟩

end Held

end Tangible
