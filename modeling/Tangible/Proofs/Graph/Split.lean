import Mathlib
import Tangible.Proofs.Graph.Change
import Tangible.Proofs.Graph.Components

/-!
# Splitting loses and joins nothing

A component is a copy of the nodes of one group and of the edges that leave them. No edge leaves a
group, so both ends of every edge have a copy in the same component and the edge is taken over
(`copyEdges_eq_foldl`). The pass that fills all components side by side looks up only nodes that it
copied before; it does for each component what is done for it alone (`split?_eq`).
-/

namespace Tangible.Graph

variable {N E : Type} {g h : Graph N E}

/-! ## Labels -/

section Labels

variable {groups : List (List NodeId)}

theorem labels_keys (groups : List (List NodeId)) : (labels groups).map (·.1) = groups.flatten := by
  have keys (row : List NodeId × Nat) : (row.1.map (·, row.2)).map Prod.fst = row.1 := by
    simp [Function.comp_def]
  simp only [labels, List.map_flatMap, keys]
  rw [List.flatMap_def, List.zipIdx_map_fst]

theorem labels_lookup (nodup : groups.flatten.Nodup) {n : Nat} {group : List NodeId}
    (place : groups[n]? = some group) {id : NodeId} (mem : id ∈ group) :
    (labels groups).lookup id = some n := by
  have listed : (id, n) ∈ labels groups := by
    refine List.mem_flatMap.mpr ⟨(group, n), List.mem_zipIdx_iff_getElem?.mpr place, ?_⟩
    exact List.mem_map.mpr ⟨id, mem, rfl⟩
  exact lookup_eq_some_of_mem (by rwa [labels_keys]) listed

/-- No node is in two groups. -/
theorem place_unique (nodup : groups.flatten.Nodup) {m n : Nat} {a b : List NodeId}
    (first : groups[m]? = some a) (second : groups[n]? = some b) {id : NodeId} (inA : id ∈ a)
    (inB : id ∈ b) : m = n := by
  have label := labels_lookup nodup first inA
  rw [labels_lookup nodup second inB] at label
  exact (Option.some.inj label).symm

theorem group_unique (nodup : groups.flatten.Nodup) {a b : List NodeId} (first : a ∈ groups)
    (second : b ∈ groups) {id : NodeId} (inA : id ∈ a) (inB : id ∈ b) : a = b := by
  obtain ⟨m, place⟩ := List.mem_iff_getElem?.mp first
  obtain ⟨n, place'⟩ := List.mem_iff_getElem?.mp second
  rw [place_unique nodup place place' inA inB] at place
  exact Option.some.inj (place.symm.trans place')

end Labels

/-! ## Copies of nodes and edges -/

theorem copyNodes_concat (nodes : List (NodeId × N)) (node : NodeId × N) (h : Graph N E) :
    copyNodes (nodes ++ [node]) h =
      ((copyNodes nodes h).1 ++ [(node.1, ((copyNodes nodes h).2.createNode node.2).1)],
        ((copyNodes nodes h).2.createNode node.2).2) := by
  induction nodes generalizing h with
  | nil => rfl
  | cons first nodes ih => simp only [List.cons_append, copyNodes, ih]

theorem copyNodes_keys (nodes : List (NodeId × N)) (h : Graph N E) :
    (copyNodes nodes h).1.map (·.1) = nodes.map (·.1) := by
  induction nodes generalizing h with
  | nil => rfl
  | cons node nodes ih => exact congrArg (node.1 :: ·) (ih _)

theorem edges_copyNodes (nodes : List (NodeId × N)) (h : Graph N E) :
    (copyNodes nodes h).2.edges = h.edges := by
  induction nodes generalizing h with
  | nil => rfl
  | cons node nodes ih => exact ih _

theorem Reachable.copyNodes (made : h.Reachable) (nodes : List (NodeId × N)) :
    (copyNodes nodes h).2.Reachable := by
  induction nodes generalizing h with
  | nil => exact made
  | cons node nodes ih => exact ih (made.createNode node.2)

/-- Every node has one copy with its payload, in the same order. -/
theorem exists_copies (wf : h.WellFormed) {nodes : List (NodeId × N)}
    (nodup : (nodes.map (·.1)).Nodup) :
    ∃ copy : NodeId → NodeId, (copyNodes nodes h).1 = nodes.map (fun n => (n.1, copy n.1)) ∧
      (copyNodes nodes h).2.nodes = h.nodes ++ nodes.map fun n => (copy n.1, n.2) := by
  induction nodes generalizing h with
  | nil => exact ⟨id, rfl, (List.append_nil _).symm⟩
  | cons node nodes ih =>
    rw [List.map_cons, List.nodup_cons] at nodup
    obtain ⟨copy, renamed, listed⟩ := ih (wf.createNode node.2) nodup.2
    have behind : ∀ n ∈ nodes, n.1 ≠ node.1 := fun n mem same =>
      nodup.1 (same ▸ List.mem_map_of_mem mem)
    refine ⟨Function.update copy node.1 (h.createNode node.2).1, ?_, ?_⟩
    · rw [List.map_cons, Function.update_self]
      refine congrArg (_ :: ·) (renamed.trans ?_)
      exact List.map_congr_left fun n mem => by rw [Function.update_of_ne (behind n mem)]
    · refine listed.trans ?_
      rw [nodes_createNode wf, List.append_assoc, List.map_cons, Function.update_self]
      refine congrArg (h.nodes ++ _ :: ·) ?_
      exact List.map_congr_left fun n mem => by rw [Function.update_of_ne (behind n mem)]

/-- The graph with a copy of an edge. -/
def linkCopy (copy : NodeId → NodeId) (h : Graph N E) (edge : Edge E) : Graph N E :=
  h.link (copy edge.source) (copy edge.target) edge.value

section LinkCopy

variable (copy : NodeId → NodeId)

theorem createEdge?_linkCopy {edge : Edge E} (source : h.contains (copy edge.source))
    (target : h.contains (copy edge.target)) :
    h.createEdge? (copy edge.source) (copy edge.target) edge.value =
      some (⟨h.edgeArena.nextHandle⟩, linkCopy copy h edge) :=
  (createEdge?_eq_some ..).mpr ⟨⟨source, target⟩, rfl, rfl⟩

theorem contains_linkCopy (edge : Edge E) (id : NodeId) :
    (linkCopy copy h edge).contains id = h.contains id :=
  contains_relink ..

theorem nodes_foldl_linkCopy (edges : List (Edge E)) :
    (edges.foldl (linkCopy copy) h).nodes = h.nodes := by
  induction edges generalizing h with
  | nil => rfl
  | cons edge edges ih => rw [List.foldl_cons, ih, linkCopy, nodes_link]

variable {copy}

/-- All edges have copies of their ends. -/
def Ended (copy : NodeId → NodeId) (h : Graph N E) (edges : List (Edge E)) : Prop :=
  ∀ edge ∈ edges, h.contains (copy edge.source) ∧ h.contains (copy edge.target)

theorem Ended.cons {edge : Edge E} {edges : List (Edge E)}
    (ended : h.Ended copy (edge :: edges)) :
    (linkCopy copy h edge).Ended copy edges := by
  intro later mem
  rw [contains_linkCopy, contains_linkCopy]
  exact ended later (List.mem_cons_of_mem _ mem)

theorem Ended.reachable {edges : List (Edge E)} (ended : h.Ended copy edges)
    (made : h.Reachable) : (edges.foldl (linkCopy copy) h).Reachable := by
  induction edges generalizing h with
  | nil => exact made
  | cons edge edges ih =>
    obtain ⟨source, target⟩ := ended edge (List.mem_cons_self ..)
    exact ih ended.cons (made.createEdge (createEdge?_linkCopy copy source target))

theorem Ended.edges {edges : List (Edge E)} (ended : h.Ended copy edges) (wf : h.WellFormed) :
    (edges.foldl (linkCopy copy) h).edges.map (·.2) =
      h.edges.map (·.2) ++ edges.map fun e => ⟨copy e.source, copy e.target, e.value⟩ := by
  induction edges generalizing h with
  | nil => exact (List.append_nil _).symm
  | cons edge edges ih =>
    obtain ⟨source, target⟩ := ended edge (List.mem_cons_self ..)
    rw [List.foldl_cons, ih ended.cons (wf.link source target edge.value), linkCopy, edges_link wf,
      List.map_append, List.append_assoc]
    rfl

/-- No edge is left out where all ends have copies. -/
theorem copyEdges_eq_foldl {renamed : List (NodeId × NodeId)} {edges : List (Edge E)}
    (ended : h.Ended copy edges)
    (known : ∀ edge ∈ edges, renamed.lookup edge.source = some (copy edge.source) ∧
      renamed.lookup edge.target = some (copy edge.target)) :
    copyEdges renamed edges h = edges.foldl (linkCopy copy) h := by
  induction edges generalizing h with
  | nil => rfl
  | cons edge edges ih =>
    obtain ⟨source, target⟩ := ended edge (List.mem_cons_self ..)
    obtain ⟨⟨source', target'⟩, known⟩ := List.forall_mem_cons.mp known
    simp only [copyEdges, source', target', createEdge?_linkCopy copy source target]
    exact ih ended.cons known

end LinkCopy

/-! ## The pass over all nodes -/

/-- The nodes of a group copied into a graph of their own. -/
def copyGroup (E : Type) (nodes : List (NodeId × N)) (group : List NodeId) :
    List (NodeId × NodeId) × Graph N E :=
  copyNodes (nodes.filter (·.1 ∈ group)) empty

section CopyGroup

variable {nodes : List (NodeId × N)} {node : NodeId × N} {group : List NodeId}

theorem copyGroup_concat_of_mem (E : Type) (nodes : List (NodeId × N)) (mem : node.1 ∈ group) :
    copyGroup E (nodes ++ [node]) group =
      ((copyGroup E nodes group).1 ++ [(node.1, ((copyGroup E nodes group).2.createNode node.2).1)],
        ((copyGroup E nodes group).2.createNode node.2).2) := by
  have more : (nodes ++ [node]).filter (·.1 ∈ group) = nodes.filter (·.1 ∈ group) ++ [node] := by
    simp [mem]
  rw [copyGroup, more, copyNodes_concat]
  rfl

theorem copyGroup_concat_of_notMem (apart : node.1 ∉ group) :
    copyGroup E (nodes ++ [node]) group = copyGroup E nodes group := by
  have same : (nodes ++ [node]).filter (·.1 ∈ group) = nodes.filter (·.1 ∈ group) := by
    simp [apart]
  rw [copyGroup, same, copyGroup]

theorem copyGroup_lookup_of_notMem {id : NodeId} (fresh : id ∉ nodes.map (·.1)) :
    (copyGroup E nodes group).1.lookup id = none := by
  refine List.lookup_eq_none_iff.mpr fun row copied => bne_iff_ne.mpr fun same => fresh ?_
  have key : row.1 ∈ (copyGroup E nodes group).1.map (·.1) := List.mem_map_of_mem copied
  rw [copyGroup, copyNodes_keys, ← same] at key
  exact (List.filter_sublist.map _).subset key

theorem copyGroup_reachable (E : Type) (nodes : List (NodeId × N)) (group : List NodeId) :
    (copyGroup E nodes group).2.Reachable :=
  Reachable.empty.copyNodes _

end CopyGroup

namespace Split

variable {groups : List (List NodeId)}

/-- The nodes of `done` are copied, those of every group as if it were the only one. -/
structure Filled (groups : List (List NodeId)) (done : List (NodeId × N)) (split : Split N E) :
    Prop where
  parts : split.parts = groups.map fun group => (copyGroup E done group).2
  renamed : ∀ group ∈ groups, ∀ id ∈ group,
    split.renamed.lookup id = (copyGroup E done group).1.lookup id

/-- A node finds its component, and the other components stay as they are. -/
theorem Filled.addNode? (nodup : groups.flatten.Nodup) {done : List (NodeId × N)}
    {split : Split N E} (filled : split.Filled groups done) {node : NodeId × N}
    (fresh : node.1 ∉ done.map (·.1)) (inside : node.1 ∈ groups.flatten) :
    ∃ split', split.addNode? (labels groups) node = some split' ∧
      split'.Filled groups (done ++ [node]) := by
  obtain ⟨group, listed, mem⟩ := List.mem_flatten.mp inside
  obtain ⟨n, place⟩ := List.mem_iff_getElem?.mp listed
  have part : split.parts[n]? = some (copyGroup E done group).2 := by
    rw [filled.parts, List.getElem?_map, place, Option.map_some]
  have here := copyGroup_concat_of_mem E done mem
  have added : split.addNode? (labels groups) node =
      some ⟨split.parts.set n (copyGroup E (done ++ [node]) group).2,
        (node.1, ((copyGroup E done group).2.createNode node.2).1) :: split.renamed⟩ := by
    simp only [Split.addNode?, labels_lookup nodup place mem, part, here, Option.bind_eq_bind,
      Option.bind_some]
    rfl
  refine ⟨_, added, ?_, fun other listed' id mem' => ?_⟩
  · rw [filled.parts]
    refine set_map_eq _ (fun group => (copyGroup E (done ++ [node]) group).2) place ?_
    intro m other there differ
    have apart : node.1 ∉ other := fun mem' => differ (place_unique nodup there place mem' mem)
    rw [copyGroup_concat_of_notMem apart]
  · rw [lookup_cons_eq_ite, filled.renamed other listed' id mem']
    by_cases same : node.1 ∈ other
    · obtain rfl := group_unique nodup listed' listed same mem
      rw [here, List.lookup_append, lookup_cons_eq_ite]
      by_cases first : id = node.1
      · rw [if_pos first, if_pos first, first, copyGroup_lookup_of_notMem fresh, Option.none_or]
      · rw [if_neg first, if_neg first, List.lookup_nil, Option.or_none]
    · have differ : id ≠ node.1 := fun first => same (first ▸ mem')
      rw [if_neg differ, copyGroup_concat_of_notMem same]

theorem Filled.addNodes? (nodup : groups.flatten.Nodup) {done : List (NodeId × N)}
    {split : Split N E} (filled : split.Filled groups done) (nodes : List (NodeId × N))
    (keys : ((done ++ nodes).map (·.1)).Nodup) (inside : ∀ n ∈ nodes, n.1 ∈ groups.flatten) :
    ∃ split', nodes.foldlM (Split.addNode? (labels groups)) split = some split' ∧
      split'.Filled groups (done ++ nodes) := by
  induction nodes generalizing done split with
  | nil => exact ⟨split, rfl, by rwa [List.append_nil]⟩
  | cons node nodes ih =>
    obtain ⟨here, inside⟩ := List.forall_mem_cons.mp inside
    have fresh : node.1 ∉ done.map (·.1) := by
      rw [List.map_append, List.map_cons] at keys
      exact fun old => List.disjoint_of_nodup_append keys old (List.mem_cons_self ..)
    obtain ⟨split', added, filled'⟩ := filled.addNode? nodup fresh here
    rw [List.append_cons] at keys ⊢
    obtain ⟨split'', rest, filled''⟩ := ih filled' keys inside
    exact ⟨split'', by rw [List.foldlM_cons, added]; exact rest, filled''⟩

end Split

/-! ## The pass over all edges -/

/-- The component of a group with a copy of the edge if it leaves the group. -/
def linkPart (copy : NodeId → NodeId) (part : List NodeId → Graph N E) (edge : Edge E)
    (group : List NodeId) : Graph N E :=
  if edge.source ∈ group then linkCopy copy (part group) edge else part group

section LinkPart

variable {copy : NodeId → NodeId} {part : List NodeId → Graph N E} {groups : List (List NodeId)}
  {renamed : List (NodeId × NodeId)} {edge : Edge E}

theorem contains_linkPart (group : List NodeId) (id : NodeId) :
    (linkPart copy part edge group).contains id = (part group).contains id := by
  rw [linkPart]
  split
  · exact contains_linkCopy ..
  · rfl

/-- A component is linked by the edges that leave its group. -/
theorem foldl_linkPart (edges : List (Edge E)) (group : List NodeId) :
    edges.foldl (linkPart copy) part group =
      (edges.filter (·.source ∈ group)).foldl (linkCopy copy) (part group) := by
  induction edges generalizing part with
  | nil => rfl
  | cons edge edges ih =>
    rw [List.foldl_cons, ih, linkPart, List.filter_cons]
    by_cases leaves : edge.source ∈ group
    · rw [if_pos leaves, if_pos (decide_eq_true leaves), List.foldl_cons]
    · rw [if_neg leaves, if_neg (by simpa using leaves)]

/-- The pass knows the group that an edge leaves and the copies of both ends. -/
structure Known (groups : List (List NodeId)) (copy : NodeId → NodeId)
    (renamed : List (NodeId × NodeId)) (part : List NodeId → Graph N E) (edge : Edge E) :
    Prop where
  placed : edge.source ∈ groups.flatten
  source : renamed.lookup edge.source = some (copy edge.source)
  target : renamed.lookup edge.target = some (copy edge.target)
  live : ∀ group ∈ groups, edge.source ∈ group →
    (part group).contains (copy edge.source) ∧ (part group).contains (copy edge.target)

theorem Known.linkPart (known : Known groups copy renamed part edge) (other : Edge E) :
    Known groups copy renamed (linkPart copy part other) edge where
  placed := known.placed
  source := known.source
  target := known.target
  live group listed leaves := by
    rw [contains_linkPart, contains_linkPart]
    exact known.live group listed leaves

theorem Known.addEdge? (known : Known groups copy renamed part edge)
    (nodup : groups.flatten.Nodup) :
    Split.addEdge? (labels groups) ⟨groups.map part, renamed⟩ edge =
      some ⟨groups.map (Graph.linkPart copy part edge), renamed⟩ := by
  obtain ⟨group, listed, mem⟩ := List.mem_flatten.mp known.placed
  obtain ⟨n, place⟩ := List.mem_iff_getElem?.mp listed
  obtain ⟨source, target⟩ := known.live group listed mem
  have found : (groups.map part)[n]? = some (part group) := by
    rw [List.getElem?_map, place, Option.map_some]
  have linked : Graph.linkPart copy part edge group = linkCopy copy (part group) edge := if_pos mem
  have grown := set_map_eq part (Graph.linkPart copy part edge) place fun m other there differ =>
    if_neg fun mem' => differ (place_unique nodup there place mem' mem)
  rw [linked] at grown
  simp only [Split.addEdge?, labels_lookup nodup place mem, found, known.source, known.target,
    createEdge?_linkCopy copy source target, Option.bind_eq_bind, Option.bind_some, grown]
  rfl

theorem addEdges?_eq (nodup : groups.flatten.Nodup) {edges : List (Edge E)}
    (known : ∀ edge ∈ edges, Known groups copy renamed part edge) :
    edges.foldlM (Split.addEdge? (labels groups)) ⟨groups.map part, renamed⟩ =
      some ⟨groups.map (edges.foldl (linkPart copy) part), renamed⟩ := by
  induction edges generalizing part with
  | nil => rfl
  | cons edge edges ih =>
    obtain ⟨here, known⟩ := List.forall_mem_cons.mp known
    rw [List.foldlM_cons, here.addEdge? nodup]
    exact ih fun later mem => (known later mem).linkPart edge

end LinkPart

/-! ## Components -/

/-- `copy` names the copies of all nodes, each in the component of its group. -/
def Named (g : Graph N E) (copy : NodeId → NodeId) : Prop :=
  ∀ group ∈ g.groups,
    (copyGroup E g.nodes group).1 =
        (g.nodes.filter (·.1 ∈ group)).map (fun n => (n.1, copy n.1)) ∧
      (copyGroup E g.nodes group).2.nodes =
        (g.nodes.filter (·.1 ∈ group)).map fun n => (copy n.1, n.2)

theorem groups_nodup (wf : g.WellFormed) : g.groups.flatten.Nodup :=
  (groups_spec wf).perm.nodup_iff.mpr (nodeIds_nodup wf)

theorem keys_nodup (wf : g.WellFormed) (keep : NodeId × N → Bool) :
    ((g.nodes.filter keep).map (·.1)).Nodup := by
  have all := nodeIds_nodup wf
  rw [nodeIds_eq wf] at all
  exact all.sublist (List.filter_sublist.map _)

theorem exists_named (wf : g.WellFormed) : ∃ copy, g.Named copy := by
  have single (group : List NodeId) :=
    exists_copies (h := (empty : Graph N E)) .empty (keys_nodup wf (·.1 ∈ group))
  choose copyIn renamed listed using single
  -- a node is copied in the one group that it is in
  have single (id : NodeId) : ∃ home, ∀ group ∈ g.groups, id ∈ group → home = group := by
    by_cases inside : id ∈ g.groups.flatten
    · obtain ⟨home, listed, mem⟩ := List.mem_flatten.mp inside
      exact ⟨home, fun group listed' mem' =>
        group_unique (groups_nodup wf) listed listed' mem mem'⟩
    · exact ⟨[], fun group listed' mem' => absurd (List.mem_flatten_of_mem listed' mem') inside⟩
  choose home only using single
  refine ⟨fun id => copyIn (home id) id, fun group there => ⟨?_, ?_⟩⟩
  · refine (renamed group).trans (List.map_congr_left fun n inside => ?_)
    simp only [only n.1 group there (by simpa using (List.mem_filter.mp inside).2)]
  · refine (listed group).trans (List.map_congr_left fun n inside => ?_)
    simp only [only n.1 group there (by simpa using (List.mem_filter.mp inside).2)]

section Named

variable {copy : NodeId → NodeId} {group : List NodeId}

theorem exists_node (wf : g.WellFormed) (listed : group ∈ g.groups) {id : NodeId}
    (mem : id ∈ group) : ∃ n ∈ g.nodes.filter (·.1 ∈ group), n.1 = id := by
  have live : id ∈ g.nodeIds := (groups_spec wf).perm.subset (List.mem_flatten_of_mem listed mem)
  rw [nodeIds_eq wf] at live
  obtain ⟨n, inside, rfl⟩ := List.mem_map.mp live
  exact ⟨n, List.mem_filter.mpr ⟨inside, decide_eq_true mem⟩, rfl⟩

theorem Named.lookup (named : g.Named copy) (wf : g.WellFormed) (listed : group ∈ g.groups)
    {id : NodeId} (mem : id ∈ group) :
    (copyGroup E g.nodes group).1.lookup id = some (copy id) := by
  obtain ⟨n, inside, rfl⟩ := exists_node wf listed mem
  rw [(named group listed).1]
  refine lookup_eq_some_of_mem (e := (n.1, copy n.1)) ?_ (List.mem_map.mpr ⟨n, inside, rfl⟩)
  rw [List.map_map]
  exact keys_nodup wf _

theorem Named.contains (named : g.Named copy) (wf : g.WellFormed) (listed : group ∈ g.groups)
    {id : NodeId} (mem : id ∈ group) :
    (copyGroup E g.nodes group).2.contains (copy id) := by
  have made := (copyGroup_reachable E g.nodes group).wellFormed
  obtain ⟨n, inside, rfl⟩ := exists_node wf listed mem
  rw [← mem_nodeIds made, nodeIds_eq made, (named group listed).2, List.map_map]
  exact List.mem_map.mpr ⟨n, inside, rfl⟩

/-- No edge leaves a group. -/
theorem ends_mem_group (wf : g.WellFormed) (listed : group ∈ g.groups) {edge : Edge E}
    (leaves : edge ∈ (g.edges.map (·.2)).filter (·.source ∈ group)) :
    edge.source ∈ group ∧ edge.target ∈ group := by
  obtain ⟨made, source⟩ := List.mem_filter.mp leaves
  obtain ⟨e, inside, rfl⟩ := List.mem_map.mp made
  rw [decide_eq_true_eq] at source
  refine ⟨source, ?_⟩
  obtain ⟨start, -, connected⟩ := (groups_spec wf).classes group listed
  rw [connected] at source ⊢
  exact source.tail (.inl ⟨e, inside, rfl, rfl⟩)

theorem Named.ended (named : g.Named copy) (wf : g.WellFormed) (listed : group ∈ g.groups) :
    (copyGroup E g.nodes group).2.Ended copy
      ((g.edges.map (·.2)).filter (·.source ∈ group)) := by
  intro edge leaves
  obtain ⟨source, target⟩ := ends_mem_group wf listed leaves
  exact ⟨named.contains wf listed source, named.contains wf listed target⟩

theorem Named.restrict (named : g.Named copy) (wf : g.WellFormed) (listed : group ∈ g.groups) :
    g.restrict group = ((g.edges.map (·.2)).filter (·.source ∈ group)).foldl (linkCopy copy)
      (copyGroup E g.nodes group).2 := by
  refine copyEdges_eq_foldl (named.ended wf listed) fun edge leaves => ?_
  obtain ⟨source, target⟩ := ends_mem_group wf listed leaves
  exact ⟨named.lookup wf listed source, named.lookup wf listed target⟩

theorem Named.nodes_restrict (named : g.Named copy) (wf : g.WellFormed) (listed : group ∈ g.groups) :
    (g.restrict group).nodes =
      (g.nodes.filter (·.1 ∈ group)).map fun n => (copy n.1, n.2) := by
  rw [named.restrict wf listed, nodes_foldl_linkCopy, (named group listed).2]

theorem Named.edges_restrict (named : g.Named copy) (wf : g.WellFormed) (listed : group ∈ g.groups) :
    (g.restrict group).edges.map (·.2) =
      ((g.edges.map (·.2)).filter (·.source ∈ group)).map fun e =>
        ⟨copy e.source, copy e.target, e.value⟩ := by
  have made := copyGroup_reachable E g.nodes group
  rw [named.restrict wf listed, (named.ended wf listed).edges made.wellFormed, copyGroup,
    edges_copyNodes]
  rfl

theorem Named.restrict_reachable (named : g.Named copy) (wf : g.WellFormed)
    (listed : group ∈ g.groups) : (g.restrict group).Reachable := by
  rw [named.restrict wf listed]
  exact (named.ended wf listed).reachable (copyGroup_reachable ..)

theorem Named.restrict_nonempty (named : g.Named copy) (wf : g.WellFormed)
    (listed : group ∈ g.groups) {id : NodeId} (mem : id ∈ group) :
    ¬ (g.restrict group).isEmpty := by
  have made := (named.restrict_reachable wf listed).wellFormed
  obtain ⟨n, inside, rfl⟩ := exists_node wf listed mem
  rw [isEmpty, beq_iff_eq, nodeCount_eq made, named.nodes_restrict wf listed, List.length_map]
  exact Nat.ne_zero_of_lt (List.length_pos_of_mem inside)

/-- The copies of two nodes are two nodes. -/
theorem Named.injective (named : g.Named copy) (wf : g.WellFormed) (listed : group ∈ g.groups)
    {a b : NodeId} (memA : a ∈ group) (memB : b ∈ group) (same : copy a = copy b) : a = b := by
  have made := (named.restrict_reachable wf listed).wellFormed
  have nodup := nodeIds_nodup made
  rw [nodeIds_eq made, named.nodes_restrict wf listed, List.map_map] at nodup
  obtain ⟨m, insideA, rfl⟩ := exists_node wf listed memA
  obtain ⟨n, insideB, rfl⟩ := exists_node wf listed memB
  exact congrArg Prod.fst (List.inj_on_of_nodup_map nodup insideA insideB same)

end Named

theorem mem_groups_flatten (wf : g.WellFormed) {id : NodeId} :
    id ∈ g.groups.flatten ↔ id ∈ g.nodeIds :=
  (groups_spec wf).perm.mem_iff

/-- No lookup of the pass fails, and it makes the same graphs. -/
theorem split?_eq (wf : g.WellFormed) : g.split? = some g.components := by
  obtain ⟨copy, named⟩ := exists_named wf
  have nodup := groups_nodup wf
  have blank : Split.Filled g.groups [] { parts := g.groups.map fun _ => (empty : Graph N E) } :=
    ⟨rfl, fun _ _ _ _ => rfl⟩
  have keys : (g.nodes.map (·.1)).Nodup := nodeIds_eq wf ▸ nodeIds_nodup wf
  have inside : ∀ n ∈ g.nodes, n.1 ∈ g.groups.flatten := fun n listed =>
    (mem_groups_flatten wf).mpr (nodeIds_eq wf ▸ List.mem_map_of_mem listed)
  obtain ⟨⟨parts, renamed⟩, copied, rfl, known⟩ := blank.addNodes? nodup g.nodes keys inside
  have lookup {id : NodeId} (live : id ∈ g.nodeIds) : renamed.lookup id = some (copy id) := by
    obtain ⟨group, listed, mem⟩ := List.mem_flatten.mp ((mem_groups_flatten wf).mpr live)
    exact (known group listed id mem).trans (named.lookup wf listed mem)
  have knows : ∀ edge ∈ g.edges.map (·.2), Known g.groups copy renamed
      (fun group => (copyGroup E g.nodes group).2) edge := by
    intro edge made
    have leaves {group : List NodeId} (source : edge.source ∈ group) :
        edge ∈ (g.edges.map (·.2)).filter (·.source ∈ group) :=
      List.mem_filter.mpr ⟨made, decide_eq_true source⟩
    obtain ⟨e, inside, rfl⟩ := List.mem_map.mp made
    have source := source_mem wf inside
    exact ⟨(mem_groups_flatten wf).mpr source, lookup source, lookup (target_mem wf inside),
      fun group listed mem => named.ended wf listed _ (leaves mem)⟩
  have same : g.components = g.groups.map
      ((g.edges.map (·.2)).foldl (linkPart copy) fun group => (copyGroup E g.nodes group).2) :=
    List.map_congr_left fun group listed => by rw [named.restrict wf listed, foldl_linkPart]
  rw [split?, copied, same]
  exact congrArg (·.bind fun split => some split.parts) (addEdges?_eq nodup knows)

/-- The place of the component of a node. -/
def place (g : Graph N E) (id : NodeId) : Nat :=
  ((labels g.groups).lookup id).getD 0

theorem exists_group (wf : g.WellFormed) {id : NodeId} (live : id ∈ g.nodeIds) :
    ∃ group, g.groups[g.place id]? = some group ∧ id ∈ group := by
  obtain ⟨group, listed, mem⟩ := List.mem_flatten.mp ((mem_groups_flatten wf).mpr live)
  obtain ⟨n, there⟩ := List.mem_iff_getElem?.mp listed
  have label : g.place id = n := by
    rw [place, labels_lookup (groups_nodup wf) there mem, Option.getD_some]
  exact ⟨group, label ▸ there, mem⟩

theorem mem_group_iff (wf : g.WellFormed) {n : Nat} {group : List NodeId}
    (there : g.groups[n]? = some group) {id : NodeId} (live : id ∈ g.nodeIds) :
    id ∈ group ↔ g.place id = n := by
  obtain ⟨home, there', mem⟩ := exists_group wf live
  constructor
  · exact fun mem' => place_unique (groups_nodup wf) there' there mem mem'
  · rintro rfl
    rwa [Option.some.inj (there.symm.trans there')]

theorem place_eq_iff (wf : g.WellFormed) {a b : NodeId} (liveA : a ∈ g.nodeIds)
    (liveB : b ∈ g.nodeIds) : g.place a = g.place b ↔ g.Connected a b := by
  obtain ⟨group, there, mem⟩ := exists_group wf liveB
  obtain ⟨start, -, connected⟩ :=
    (groups_spec wf).classes group (List.mem_iff_getElem?.mpr ⟨_, there⟩)
  rw [connected] at mem
  rw [← mem_group_iff wf there liveA, connected]
  exact ⟨fun other => other.symm.trans mem, fun other => mem.trans other.symm⟩

/-- What splitting a graph comes to: `place` is the place of the component of a node and `copy` its
copy there. -/
structure Splits (g : Graph N E) (parts : List (Graph N E)) (place : NodeId → Nat)
    (copy : NodeId → NodeId) : Prop where
  reachable : ∀ part ∈ parts, part.Reachable ∧ ¬ part.isEmpty
  inside : ∀ id ∈ g.nodeIds, place id < parts.length
  connected : ∀ a ∈ g.nodeIds, ∀ b ∈ g.nodeIds, place a = place b ↔ g.Connected a b
  nodes : ∀ n part, parts[n]? = some part →
    part.nodes = (g.nodes.filter (place ·.1 = n)).map fun v => (copy v.1, v.2)
  edges : ∀ n part, parts[n]? = some part →
    part.edges.map (·.2) = (g.edges.filter (place ·.2.source = n)).map fun e =>
      ⟨copy e.2.source, copy e.2.target, e.2.value⟩
  together : ∀ e ∈ g.edges, place e.2.target = place e.2.source
  injective : ∀ a ∈ g.nodeIds, ∀ b ∈ g.nodeIds, place a = place b → copy a = copy b → a = b
  /-- A component begins before the components behind it. -/
  ordered : ∀ m n, m < n → n < parts.length → ∃ a ∈ g.nodeIds, place a = m ∧
    ∀ b ∈ g.nodeIds, place b = n → g.nodeIds.idxOf a < g.nodeIds.idxOf b

theorem Named.splits {copy : NodeId → NodeId} (named : g.Named copy) (wf : g.WellFormed) :
    g.Splits g.components g.place copy := by
  have valid := groups_spec wf
  have sized : g.components.length = g.groups.length := List.length_map _
  have live {group : List NodeId} (listed : group ∈ g.groups) {id : NodeId} (mem : id ∈ group) :
      id ∈ g.nodeIds :=
    valid.perm.subset (List.mem_flatten_of_mem listed mem)
  have home {n : Nat} {part : Graph N E} (there : g.components[n]? = some part) :
      ∃ group, g.groups[n]? = some group ∧ group ∈ g.groups ∧ g.restrict group = part := by
    rw [components, List.getElem?_map, Option.map_eq_some_iff] at there
    obtain ⟨group, place, same⟩ := there
    exact ⟨group, place, List.mem_of_getElem? place, same⟩
  refine ⟨fun part made => ?_, fun id live => ?_, fun a liveA b liveB => place_eq_iff wf liveA liveB,
    fun n part there => ?_, fun n part there => ?_, fun e inside => ?_,
    fun a liveA b liveB same eq => ?_, fun m n before inside => ?_⟩
  · obtain ⟨group, listed, rfl⟩ := List.mem_map.mp made
    refine ⟨named.restrict_reachable wf listed, ?_⟩
    obtain ⟨start, begun, -⟩ := valid.classes group listed
    exact named.restrict_nonempty wf listed begun
  · obtain ⟨group, place, -⟩ := exists_group wf live
    rw [sized]
    exact (List.getElem?_eq_some_iff.mp place).1
  · obtain ⟨group, place, listed, rfl⟩ := home there
    rw [named.nodes_restrict wf listed]
    refine congrArg (List.map _) (List.filter_congr fun v inside => ?_)
    have live : v.1 ∈ g.nodeIds := nodeIds_eq wf ▸ List.mem_map_of_mem inside
    exact decide_eq_decide.mpr (mem_group_iff wf place live)
  · obtain ⟨group, place, listed, rfl⟩ := home there
    rw [named.edges_restrict wf listed, List.filter_map, List.map_map]
    refine congrArg (List.map _) (List.filter_congr fun e inside => ?_)
    exact decide_eq_decide.mpr (mem_group_iff wf place (source_mem wf inside))
  · exact (place_eq_iff wf (target_mem wf inside) (source_mem wf inside)).mpr
      (.single (.inr ⟨e, inside, rfl, rfl⟩))
  · obtain ⟨group, place, memB⟩ := exists_group wf liveB
    have memA := (mem_group_iff wf place liveA).mpr same
    exact named.injective wf (List.mem_of_getElem? place) memA memB eq
  · rw [sized] at inside
    obtain ⟨a, mem, first⟩ := List.pairwise_iff_getElem.mp valid.ordered m n (by omega) inside before
    have place (n : Nat) (inside : n < g.groups.length) : g.groups[n]? = some g.groups[n] :=
      List.getElem?_eq_getElem inside
    have liveA := live (List.getElem_mem _) mem
    refine ⟨a, liveA, (mem_group_iff wf (place m (by omega)) liveA).mp mem, fun b liveB same => ?_⟩
    exact first b ((mem_group_iff wf (place n inside) liveB).mpr same)

/-- Splitting neither fails nor loses or joins anything: the components divide the nodes as they are
connected, and each takes over its nodes and edges in their order. -/
theorem components_split (reachable : g.Reachable) :
    g.split? = some g.components ∧ ∃ place copy, g.Splits g.components place copy := by
  have wf := reachable.wellFormed
  obtain ⟨copy, named⟩ := exists_named wf
  exact ⟨split?_eq wf, g.place, copy, named.splits wf⟩

/-- A circle of the second and the fourth node, two edges from the first to the third, whose slot was
used before, and a loop at the last. -/
def scattered : Graph Nat Nat :=
  empty.applyAll [.createNode 1, .createNode 2, .createNode 9, .removeNode ⟨2, 0⟩, .createNode 3,
    .createNode 4, .createNode 5, .createEdge ⟨1, 0⟩ ⟨3, 0⟩ 1, .createEdge ⟨0, 0⟩ ⟨2, 1⟩ 2,
    .createEdge ⟨3, 0⟩ ⟨1, 0⟩ 3, .createEdge ⟨0, 0⟩ ⟨2, 1⟩ 4, .createEdge ⟨4, 0⟩ ⟨4, 0⟩ 5]

theorem components_split_scattered :
    scattered.Reachable ∧ scattered.split? = some scattered.components ∧
      scattered.components.map (·.nodes.map (·.2)) = [[1, 3], [2, 4], [5]] ∧
      scattered.components.map (·.edges.map (·.2.value)) = [[2, 4], [1, 3], [5]] ∧
      ∃ place copy, scattered.Splits scattered.components place copy := by
  have made : scattered.Reachable := Reachable.empty.applyAll _
  obtain ⟨split, splits⟩ := components_split made
  exact ⟨made, split, by cbv, by cbv, splits⟩

end Tangible.Graph
