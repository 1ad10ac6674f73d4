import Tangible.Message.Link
import Tangible.Proofs.Message.Flat
import Tangible.Proofs.Message.Skeleton

/-!
# Links read back

`Links.Reachable` is every association that the operations make. Such an association either has
no graph, or its graph has the shape, the anchor is the node that the shape is built around, and
this node carries the session of the message (`Reachable.valid`). The session is therefore not lost
by leaving the anchor out of the arguments: `Links.ofArgs?_args` reads an isomorphic graph.
-/

namespace Tangible

open Osc (Arg)

namespace Links

variable {shape : Topology} {l : Links shape}

/-- The associations that the operations make. -/
inductive Reachable : Links shape → Prop where
  | blank (sessionId : UInt32) (physical : Bool) : Reachable { sessionId, physical }
  | withSessionId {l : Links shape} (id : UInt32) : Reachable l → Reachable (l.withSessionId id)
  | withPhysical {l : Links shape} (physical : Bool) :
      Reachable l → Reachable (l.withPhysical physical)
  | withGraph {l l' : Links shape} {graph : LinkGraph} :
      Reachable l → graph.Reachable → l.withGraph graph = .ok l' → Reachable l'
  | clearGraph {l : Links shape} : Reachable l → Reachable l.clearGraph
  | ofArgs {args : List Arg} {l : Links shape} : ofArgs? args = some l → Reachable l

/-- The anchor marks the right node of the graph, and the graph is empty without it. -/
structure Valid (l : Links shape) : Prop where
  graph : l.graph.WellFormed
  unanchored : l.anchor = none → l.graph.isEmpty
  anchored : ∀ anchor, l.anchor = some anchor →
    l.graph.anchor? shape = some anchor ∧ l.graph.value? anchor = some l.sessionId ∧
      2 ≤ l.graph.nodeCount

theorem valid_empty (sessionId : UInt32) (physical : Bool) :
    Valid ({ sessionId, physical } : Links shape) where
  graph := .empty
  unanchored _ := rfl
  anchored _ anchor := by simp at anchor

theorem Valid.clearGraph (l : Links shape) : l.clearGraph.Valid where
  graph := .empty
  unanchored _ := rfl
  anchored _ anchor := by simp [Links.clearGraph] at anchor

theorem value?_setNode {g : LinkGraph} (wf : g.WellFormed) {id : NodeId} (live : id ∈ g.nodeIds)
    (value : UInt32) : (g.setNode id value).value? id = some value := by
  rw [Graph.value?_eq_some_iff (wf.setNode id value), Graph.nodes_setNode]
  rw [Graph.nodeIds_eq wf, List.mem_map] at live
  obtain ⟨n, mem, rfl⟩ := live
  exact List.mem_map.mpr ⟨n, mem, by simp⟩

theorem withGraph_valid {l l' : Links shape} {graph : LinkGraph} (wf : graph.WellFormed)
    (taken : l.withGraph graph = .ok l') : l'.Valid := by
  rw [withGraph] at taken
  split at taken
  · obtain rfl := Except.ok.inj taken
    exact .clearGraph l
  · next large =>
    split at taken
    · next anchor found =>
      obtain rfl := Except.ok.inj taken
      have wf' := wf.setNode anchor l.sessionId
      have both := Graph.matches_setNode (g := graph) anchor l.sessionId
      obtain ⟨size, source, _⟩ := Graph.anchor?_eq_some_iff.mp found
      refine ⟨wf', by simp, ?_⟩
      intro anchor' same
      obtain rfl := Option.some.inj same
      refine ⟨(both.anchor?_eq wf wf' shape).trans found,
        value?_setNode wf (Graph.source?_mem source).1 _, ?_⟩
      simp only [Graph.isTreeSized, Bool.and_eq_true, beq_iff_eq, decide_eq_true_eq] at size
      rw [both.nodeCount]
      omega
    · simp at taken

theorem Valid.withSessionId (valid : l.Valid) (id : UInt32) : (l.withSessionId id).Valid := by
  cases anchored : l.anchor with
  | none =>
    refine ⟨?_, ?_, ?_⟩
    · simpa [Links.withSessionId, anchored] using valid.graph
    · intro _
      simpa [Links.withSessionId, anchored] using valid.unanchored anchored
    · intro anchor same
      simp [Links.withSessionId, anchored] at same
  | some anchor =>
    obtain ⟨found, _, large⟩ := valid.anchored anchor anchored
    have wf := valid.graph.setNode anchor id
    have both := Graph.matches_setNode (g := l.graph) anchor id
    have live := (Graph.source?_mem (Graph.anchor?_eq_some_iff.mp found).2.1).1
    have graph : (l.withSessionId id).graph = l.graph.setNode anchor id := by
      simp [Links.withSessionId, anchored]
    refine ⟨graph ▸ wf, ?_, ?_⟩
    · intro none
      simp [Links.withSessionId, anchored] at none
    · intro anchor' same
      obtain rfl : anchor = anchor' := by simpa [Links.withSessionId, anchored] using same
      rw [graph]
      refine ⟨(both.anchor?_eq valid.graph wf shape).trans found, ?_, ?_⟩
      · exact value?_setNode valid.graph live id
      · rwa [both.nodeCount]

theorem ofArgs?_valid {args : List Arg} (read : ofArgs? args = some l) : l.Valid := by
  rw [ofArgs?.eq_def] at read
  split at read
  · simp only [Option.bind_eq_bind, Option.bind_eq_some_iff] at read
    obtain ⟨_, _, graph, grown, taken⟩ := read
    exact withGraph_valid (Graph.ofEntries?_reachable grown).wellFormed (ok_of_toOption taken)
  · simp at read

theorem Reachable.valid (reachable : l.Reachable) : l.Valid := by
  induction reachable with
  | blank sessionId physical => exact valid_empty sessionId physical
  | withSessionId id _ valid => exact valid.withSessionId id
  | withPhysical physical _ valid => exact ⟨valid.graph, valid.unanchored, valid.anchored⟩
  | withGraph _ graph taken _ => exact withGraph_valid graph.wellFormed taken
  | clearGraph _ _ => exact .clearGraph _
  | ofArgs read => exact ofArgs?_valid read

/-- The same session and the same links, whatever the handles. -/
structure Same (l l' : Links shape) : Prop where
  session : l.sessionId = l'.sessionId
  physical : l.physical = l'.physical
  graph : l.graph.Isomorphic l'.graph

/-! ## Arguments -/

theorem flatEntries?_args {parent : Option UInt32} {entries : List (Entry UInt32 Ports)}
    (beside : ∀ entry ∈ entries, entry.parent = parent) :
    flatEntries? parent (entries.flatMap fun entry => linkArgs entry.value (some entry.edge)) =
      some entries := by
  induction entries with
  | nil => rfl
  | cons entry entries ih =>
    have rest := ih fun entry mem => beside entry (List.mem_cons_of_mem _ mem)
    have here := beside entry (List.mem_cons_self ..)
    obtain ⟨_, session, ports⟩ := entry
    subst here
    simp only [List.flatMap_cons, linkArgs, Run.ofIds, Arg.ofId, Option.map_some, Option.getD_some,
      List.map_cons, List.map_nil, List.cons_append, List.nil_append, flatEntries?] at rest ⊢
    rw [rest]
    simp

theorem treeEntries?_args (entries : List (Entry UInt32 Ports)) :
    treeEntries? (entries.flatMap fun entry =>
      jumpArgs entry.parent ++ linkArgs entry.value (some entry.edge)) = some entries := by
  induction entries with
  | nil => rfl
  | cons entry entries ih =>
    obtain ⟨parent, session, ports⟩ := entry
    rw [List.flatMap_cons]
    generalize (entries.flatMap fun entry =>
      jumpArgs entry.parent ++ linkArgs entry.value (some entry.edge)) = rest at ih ⊢
    cases parent with
    | none => simp [jumpArgs, linkArgs, Run.ofIds, Arg.ofId, treeEntries?, ih]
    | some place => simp [jumpArgs, linkArgs, Run.ofIds, Arg.ofId, treeEntries?, ih]

/-- The links of a star in wire order. -/
theorem body_star {l : Links .star} {anchor : NodeId} (valid : l.Valid)
    (anchored : l.anchor = some anchor) :
    l.body = (l.graph.starEntries l.graph.edges).flatMap fun entry =>
      linkArgs entry.value (some entry.edge) := by
  have star := (valid.anchored anchor anchored).1
  simp only [body, direct, anchored, Graph.star_outEdges valid.graph star, Graph.starEntries,
    List.flatMap, List.map_filterMap, Option.map_map]
  rfl

/-- Every node takes an argument at least. -/
theorem nodeCount_le_args (valid : l.Valid) : l.graph.nodeCount ≤ l.args.length := by
  cases anchored : l.anchor with
  | none =>
    have none := valid.unanchored anchored
    rw [Graph.isEmpty, beq_iff_eq] at none
    omega
  | some anchor =>
    obtain ⟨found, _, _⟩ := valid.anchored anchor anchored
    obtain ⟨size, _, shaped⟩ := Graph.anchor?_eq_some_iff.mp found
    have walked (all : l.graph.reachesAll anchor) :
        l.graph.nodeCount ≤ (l.entries.tail.flatMap fun entry =>
          jumpArgs entry.parent ++ linkArgs entry.value entry.edge).length + 1 := by
      have rows := length_le_flatMap (l := l.entries.tail)
        (r := fun entry => jumpArgs entry.parent ++ linkArgs entry.value entry.edge)
        fun entry => by simp [linkArgs, Run.ofIds]
      rw [Graph.reachesAll, beq_iff_eq, ← Graph.entriesFrom_length valid.graph] at all
      rw [List.length_tail] at rows
      simp only [entries, anchored] at rows ⊢
      omega
    cases shape with
    | star =>
      have rows := length_le_flatMap (l := l.graph.starEntries l.graph.edges)
        (r := fun entry => linkArgs entry.value (some entry.edge))
        fun entry => by simp [linkArgs, Run.ofIds]
      rw [Graph.starEntries_length valid.graph fun _ mem => mem, ← Graph.edgeCount_eq valid.graph]
        at rows
      simp only [Graph.isTreeSized, Bool.and_eq_true, beq_iff_eq] at size
      rw [args, body_star valid anchored]
      simp only [List.length_cons]
      omega
    | chain =>
      simp only [Graph.isAnchor, Graph.isChainOrigin, Bool.and_eq_true] at shaped
      have rows := walked shaped.2
      simp only [args, body, List.length_cons]
      omega
    | trunkTree =>
      simp only [Graph.isAnchor, Graph.isTrunkOrigin, Bool.and_eq_true] at shaped
      have rows := walked shaped.2
      simp only [args, body, List.length_cons]
      omega

/-- The edges of a star are all its links. -/
theorem entries?_star {l : Links .star} {anchor : NodeId} (valid : l.Valid)
    (anchored : l.anchor = some anchor) :
    ∃ entries edges, entries? .star l.body = some entries ∧
      l.graph.DescribesAll anchor entries edges := by
  obtain ⟨found, _, _⟩ := valid.anchored anchor anchored
  refine ⟨_, _, ?_, Graph.describesAll_star valid.graph found⟩
  rw [entries?, body_star valid anchored, flatEntries?_args]
  intro entry mem
  obtain ⟨e, _, made⟩ := List.mem_filterMap.mp mem
  obtain ⟨_, _, rfl⟩ := Option.map_eq_some_iff.mp made
  rfl

/-- A chain is read without places, since its walk never jumps. -/
theorem entries?_chain {l : Links .chain} {anchor : NodeId} (valid : l.Valid)
    (anchored : l.anchor = some anchor) :
    ∃ entries edges, entries? .chain l.body = some entries ∧
      l.graph.DescribesAll anchor entries edges := by
  obtain ⟨found, here, _⟩ := valid.anchored anchor anchored
  obtain ⟨size, _, shaped⟩ := Graph.anchor?_eq_some_iff.mp found
  rw [Graph.isAnchor] at shaped
  have straight := Graph.parent_none_of_chain valid.graph shaped
  rw [Graph.isChainOrigin, Bool.and_eq_true] at shaped
  obtain ⟨entries, edges, written, all⟩ :=
    Graph.entriesFrom_eq valid.graph here size shaped.2 (.inr straight)
  rw [written, List.forall_mem_cons, List.forall_mem_map] at straight
  refine ⟨entries, edges, ?_, all⟩
  rw [entries?, body, Links.entries, anchored]
  simp only [written, List.tail_cons, List.flatMap_map]
  refine Eq.trans (congrArg (flatEntries? none) ?_) (flatEntries?_args straight.2)
  refine List.flatMap_congr fun entry mem => ?_
  have none : entry.parent = none := straight.2 entry mem
  simp only [Entry.walked, none, jumpArgs, List.nil_append]

theorem entries?_tree {l : Links .trunkTree} {anchor : NodeId} (valid : l.Valid)
    (anchored : l.anchor = some anchor) (small : l.graph.nodeCount ≤ 2 ^ 32) :
    ∃ entries edges, entries? .trunkTree l.body = some entries ∧
      l.graph.DescribesAll anchor entries edges := by
  obtain ⟨found, here, _⟩ := valid.anchored anchor anchored
  obtain ⟨size, _, shaped⟩ := Graph.anchor?_eq_some_iff.mp found
  rw [Graph.isAnchor, Graph.isTrunkOrigin, Bool.and_eq_true] at shaped
  obtain ⟨entries, edges, written, all⟩ :=
    Graph.entriesFrom_eq valid.graph here size shaped.2 (.inl small)
  refine ⟨entries, edges, ?_, all⟩
  rw [entries?, body, Links.entries, anchored]
  simp only [written, List.tail_cons, List.flatMap_map]
  exact treeEntries?_args entries

/-- The body tells of every link, in a form that the reader of the shape understands. Only the body
of a tree names places. -/
theorem entries?_body {anchor : NodeId} (valid : l.Valid) (anchored : l.anchor = some anchor)
    (small : shape = .trunkTree → l.graph.nodeCount ≤ 2 ^ 32) :
    ∃ entries edges, entries? shape l.body = some entries ∧
      l.graph.DescribesAll anchor entries edges := by
  cases shape with
  | star => exact entries?_star valid anchored
  | chain => exact entries?_chain valid anchored
  | trunkTree => exact entries?_tree valid anchored (small rfl)

theorem ofArgs?_cons (session : UInt32) (physical : Bool) (rest : List Arg) :
    (ofArgs? (.ofId session :: .bool physical :: rest) : Option (Links shape)) =
      (entries? shape rest).bind fun entries =>
        (Graph.ofEntries? session entries).bind fun graph =>
          (withGraph { sessionId := session, physical } graph).toOption := rfl

/-- The same session and a copy of the graph with the anchor at the same node. -/
structure Copies (l l' : Links shape) (f : NodeId → NodeId) : Prop where
  session : l.sessionId = l'.sessionId
  physical : l.physical = l'.physical
  graph : l.graph.Copies l'.graph f
  wellFormed : l'.graph.WellFormed
  anchor : l'.anchor = l.anchor.map f

namespace Copies

variable {l' : Links shape} {f : NodeId → NodeId}

theorem same (copies : l.Copies l' f) : l.Same l' :=
  ⟨copies.session, copies.physical, f, copies.graph.toRenames⟩

/-- The edges that leave the anchors lead to the same sessions in the same order. -/
theorem direct (copies : l.Copies l' f) (valid : l.Valid) : l'.direct = l.direct := by
  rw [Links.direct, Links.direct, copies.anchor]
  cases anchored : l.anchor with
  | none => rfl
  | some anchor =>
    have source := (Graph.anchor?_eq_some_iff.mp (valid.anchored anchor anchored).1).2.1
    have ordered := copies.graph.ordered anchor (Graph.source?_mem source).1
    have leads : ∀ e ∈ l.graph.outEdges anchor,
        l'.graph.value? (f e.2.target) = l.graph.value? e.2.target := by
      intro e mem
      rw [Graph.outEdges_eq valid.graph] at mem
      have live := Graph.target_mem valid.graph (List.mem_filter.mp mem).1
      obtain ⟨value, here⟩ := (Graph.mem_nodeIds_iff_value? valid.graph).mp live
      rw [here, copies.graph.toRenames.value? valid.graph copies.wellFormed here]
    let link (e : Edge Ports) := (l'.graph.value? e.target).map (·, e.value)
    calc (l'.graph.outEdges (f anchor)).filterMap (fun e => link e.2)
        = ((l'.graph.outEdges (f anchor)).map (·.2)).filterMap link := by
          rw [List.filterMap_map]
          rfl
      _ = (l.graph.outEdges anchor).filterMap fun e =>
            link ⟨f e.2.source, f e.2.target, e.2.value⟩ := by
          rw [ordered, List.filterMap_map]
          rfl
      _ = (l.graph.outEdges anchor).filterMap fun e =>
            (l.graph.value? e.2.target).map (·, e.2.value) :=
          List.filterMap_congr fun e mem => by rw [← leads e mem]

/-- A copy is walked as the links are. -/
theorem entries (copies : l.Copies l' f) (valid : l.Valid) : l'.entries = l.entries := by
  rw [Links.entries, Links.entries, copies.anchor]
  cases anchored : l.anchor with
  | none => rfl
  | some anchor =>
    have source := (Graph.anchor?_eq_some_iff.mp (valid.anchored anchor anchored).1).2.1
    exact copies.graph.entriesFrom valid.graph copies.wellFormed (Graph.source?_mem source).1

/-- A copy is written with the same arguments. -/
theorem args (copies : l.Copies l' f) (valid : l.Valid) : l'.args = l.args := by
  have body : l'.body = l.body := by
    cases shape with
    | star => rw [Links.body, Links.body, copies.direct valid]
    | chain | trunkTree => rw [Links.body, Links.body, copies.entries valid]
  rw [Links.args, Links.args, copies.session, copies.physical, body]

end Copies

/-- Links read back from their arguments as a copy. -/
theorem ofArgs?_args_copies (valid : l.Valid)
    (small : shape = .trunkTree → l.graph.nodeCount ≤ 2 ^ 32) :
    ∃ (l' : Links shape) (f : NodeId → NodeId), ofArgs? l.args = some l' ∧ l.Copies l' f := by
  rw [args, ofArgs?_cons]
  cases anchored : l.anchor with
  | none =>
    have blank : l.body = [] := by
      cases shape <;> simp [body, direct, Links.entries, anchored]
    have noEntries : entries? shape [] = some [] := by
      cases shape <;> rfl
    refine ⟨{ sessionId := l.sessionId, physical := l.physical }, id, ?_, rfl, rfl, ?_, .empty, ?_⟩
    · rw [blank, noEntries]
      rfl
    · exact Graph.copies_of_isEmpty valid.graph .empty (valid.unanchored anchored) rfl
    · rw [anchored]
      rfl
  | some anchor =>
    obtain ⟨found, here, large⟩ := valid.anchored anchor anchored
    obtain ⟨entries, edges, read, all⟩ := entries?_body valid anchored small
    obtain ⟨k, f, grown, wf, copies⟩ := Graph.ofEntries?_of_describesAll valid.graph here all
    have both := copies.toRenames.matches valid.graph wf
    -- the reader finds the anchor of the copy, and the copy carries the session there already
    have found' := both.anchor? valid.graph wf found
    have here' := copies.toRenames.value? valid.graph wf here
    have notSmall : ¬ (k.edgeCount = 0 ∧ k.nodeCount ≤ 1) := by
      rw [both.nodeCount]
      omega
    refine ⟨⟨l.sessionId, l.physical, k.setNode (f anchor) l.sessionId, some (f anchor)⟩, f, ?_,
      rfl, rfl, copies.setNode_self wf here', wf.setNode _ _, by rw [anchored]; rfl⟩
    rw [read, Option.bind_some, grown, Option.bind_some, withGraph, if_neg notSmall, found']
    rfl

/-- Links read back from their arguments. -/
theorem ofArgs?_args (valid : l.Valid) (small : l.graph.nodeCount ≤ 2 ^ 32) :
    ∃ l' : Links shape, ofArgs? l.args = some l' ∧ l.Same l' := by
  obtain ⟨l', _, read, copies⟩ := ofArgs?_args_copies valid fun _ => small
  exact ⟨l', read, copies.same⟩

end Links

end Tangible
