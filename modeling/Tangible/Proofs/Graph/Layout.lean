import Mathlib.Algebra.Group.Nat.Defs
import Tangible.Graph.Layout
import Tangible.Proofs.Graph.Change
import Tangible.Proofs.Graph.Copy

/-!
# Entry lists tell graphs

A list of entries describes a graph (`Describes`) if it takes the edges of the graph one by one,
each leaving a node that was met before and arriving at a new one, and says where each of them
leaves and what its payloads are. If it takes all edges, and those of a node in order
(`DescribesAll`), the graph that is grown from it is a copy of the one described
(`ofEntries?_of_describesAll`). The entries of a complete walk are such a list (`entriesFrom_eq`).

The place of a parent has 32 bits. Handles have slots of 32 bits, so there are places enough for
the nodes of every graph with such handles (`Addressable.nodeCount_le`). All graphs that fewer than
`2 ^ 32` insertions make are among them (`inRange_applyAll`, `InRange.addressable`).
-/

namespace Tangible

/-- An entry as a walk writes it. -/
def Entry.walked {N E : Type} (entry : Entry N E) : Entry N (Option E) :=
  ⟨entry.parent, entry.value, some entry.edge⟩

namespace Graph

variable {N E : Type} {g : Graph N E}

/-- The node that an entry names as its parent among those placed before it. -/
def parentOf (placed : List NodeId) (parent : Option UInt32) : Option NodeId :=
  match parent with
  | some place => placed[place.toNat]?
  | none => placed.getLast?

theorem mem_of_parentOf {placed : List NodeId} {parent : Option UInt32} {id : NodeId}
    (found : parentOf placed parent = some id) : id ∈ placed := by
  cases parent with
  | none => exact List.mem_of_getLast? found
  | some place => exact List.mem_of_getElem? found

theorem parentOf_map (f : NodeId → NodeId) (placed : List NodeId) (parent : Option UInt32) :
    parentOf (placed.map f) parent = (parentOf placed parent).map f := by
  cases parent with
  | none => simp [parentOf]
  | some place => simp [parentOf]

/-- The entries tell of the edges one by one. -/
inductive Describes (g : Graph N E) :
    List NodeId → List (Entry N E) → List (EdgeId × Edge E) → Prop where
  | nil {before : List NodeId} : Describes g before [] []
  | cons {before : List NodeId} {entry : Entry N E} {entries : List (Entry N E)}
      {e : EdgeId × Edge E} {edges : List (EdgeId × Edge E)} :
      e ∈ g.edges → e.2.target ∉ before → g.value? e.2.target = some entry.value →
      e.2.value = entry.edge → parentOf before entry.parent = some e.2.source →
      Describes g (before ++ [e.2.target]) entries edges →
      Describes g before (entry :: entries) (e :: edges)

theorem Describes.follows {before : List NodeId} {entries : List (Entry N E)}
    {edges : List (EdgeId × Edge E)} (describes : g.Describes before entries edges) :
    g.Follows before edges := by
  induction describes with
  | nil => exact .nil
  | cons inside new _ _ parent _ ih => exact .cons inside (mem_of_parentOf parent) new ih

theorem Follows.nodup {before : List NodeId} {edges : List (EdgeId × Edge E)}
    (follows : g.Follows before edges) (nodup : before.Nodup) :
    (before ++ edges.map (·.2.target)).Nodup := by
  induction follows with
  | nil => simpa using nodup
  | @cons before e rest _ _ new _ ih =>
    have next : (before ++ [e.2.target]).Nodup := by
      rw [List.nodup_append]
      refine ⟨nodup, List.nodup_singleton _, ?_⟩
      rintro a old b last rfl
      rw [List.mem_singleton] at last
      exact new (last ▸ old)
    simpa using ih next

theorem Follows.subset {before : List NodeId} {edges : List (EdgeId × Edge E)}
    (follows : g.Follows before edges) : edges ⊆ g.edges := by
  induction follows with
  | nil => simp
  | cons inside _ _ _ ih => exact List.cons_subset.mpr ⟨inside, ih⟩

/-! ## Growing a copy -/

/-- The handle of the node that an entry adds. -/
def bud (h : Graph N E) (entry : Entry N E) : NodeId :=
  (h.createNode entry.value).1

/-- The graph with the node of an entry, linked to its parent. -/
def sprout (h : Graph N E) (parent : NodeId) (entry : Entry N E) : Graph N E :=
  (h.createNode entry.value).2.link parent (h.bud entry) entry.edge

theorem grow_eq_bind (placed : List NodeId) (entry : Entry N E) (entries : List (Entry N E)) :
    grow placed (entry :: entries) g =
      (parentOf placed entry.parent).bind fun parent =>
        ((g.createNode entry.value).2.createEdge? parent (g.bud entry) entry.edge).bind fun made =>
          grow (placed ++ [g.bud entry]) entries made.2 := by
  rw [grow]
  cases entry.parent <;> rfl

section Sprout

variable {parent : NodeId} {entry : Entry N E}

theorem nodes_sprout (wf : g.WellFormed) :
    (g.sprout parent entry).nodes = g.nodes ++ [(g.bud entry, entry.value)] := by
  rw [sprout, nodes_link, nodes_createNode wf]
  rfl

theorem edges_sprout (wf : g.WellFormed) :
    (g.sprout parent entry).edges.map (·.2) =
      g.edges.map (·.2) ++ [⟨parent, g.bud entry, entry.edge⟩] := by
  rw [sprout, edges_link (wf.createNode entry.value), List.map_append]
  rfl

theorem contains_createNode (wf : g.WellFormed) (value : N) (id : NodeId) :
    (g.createNode value).2.contains id ↔ id ∈ g.nodeIds ∨ id = (g.createNode value).1 := by
  have wf' := wf.createNode value
  rw [← mem_nodeIds wf', nodeIds_eq wf', nodes_createNode wf, List.map_append, ← nodeIds_eq wf]
  simp

theorem WellFormed.sprout (wf : g.WellFormed) (live : parent ∈ g.nodeIds) :
    (g.sprout parent entry).WellFormed := by
  have wf' := wf.createNode entry.value
  exact wf'.link ((contains_createNode wf ..).mpr (.inl live))
    ((contains_createNode wf ..).mpr (.inr rfl)) entry.edge

theorem nodeIds_sprout (wf : g.WellFormed) (live : parent ∈ g.nodeIds) :
    (g.sprout parent entry).nodeIds = g.nodeIds ++ [g.bud entry] := by
  rw [nodeIds_eq (wf.sprout live), nodes_sprout wf, List.map_append, ← nodeIds_eq wf]
  rfl

theorem grow_cons (wf : g.WellFormed) {placed : List NodeId} {entries : List (Entry N E)}
    (found : parentOf placed entry.parent = some parent) (live : parent ∈ g.nodeIds) :
    grow placed (entry :: entries) g =
      grow (placed ++ [g.bud entry]) entries (g.sprout parent entry) := by
  have linked := (createEdge?_eq_some (g := (g.createNode entry.value).2) parent (g.bud entry)
    entry.edge _ (g.sprout parent entry)).mpr
      ⟨⟨(contains_createNode wf ..).mpr (.inl live), (contains_createNode wf ..).mpr (.inr rfl)⟩,
        rfl, rfl⟩
  rw [grow_eq_bind, found, Option.bind_some, linked, Option.bind_some]

end Sprout

/-- Whatever the entries say, growing only creates nodes and edges. -/
theorem grow_reachable {placed : List NodeId} {entries : List (Entry N E)} {h : Graph N E}
    (reachable : g.Reachable) (grown : grow placed entries g = some h) : h.Reachable := by
  induction entries generalizing placed g with
  | nil =>
    rw [grow, Option.some.injEq] at grown
    exact grown ▸ reachable
  | cons entry entries ih =>
    rw [grow_eq_bind] at grown
    obtain ⟨parent, _, linking⟩ := Option.bind_eq_some_iff.mp grown
    obtain ⟨⟨id, linked⟩, created, grown⟩ := Option.bind_eq_some_iff.mp linking
    exact ih ((reachable.createNode entry.value).createEdge created) grown

theorem ofEntries?_reachable {value : N} {entries : List (Entry N E)} {h : Graph N E}
    (grown : ofEntries? value entries = some h) : h.Reachable :=
  grow_reachable (.createNode value .empty) grown

/-- Growing goes through and adds the nodes and the edges described, under handles that `f'`
gives them. The handles given before stay. -/
theorem grow_of_describes (blank : N) {before : List NodeId} {entries : List (Entry N E)}
    {edges : List (EdgeId × Edge E)} (describes : g.Describes before entries edges)
    {h : Graph N E} {f : NodeId → NodeId} (wf : h.WellFormed)
    (placed : h.nodeIds = before.map f) :
    ∃ (k : Graph N E) (f' : NodeId → NodeId),
      grow (before.map f) entries h = some k ∧ k.WellFormed ∧ (∀ id ∈ before, f' id = f id) ∧
      k.nodes = h.nodes ++
        edges.map (fun e => (f' e.2.target, (g.value? e.2.target).getD blank)) ∧
      k.edges.map (·.2) = h.edges.map (·.2) ++
        edges.map fun e => Edge.mk (f' e.2.source) (f' e.2.target) e.2.value := by
  induction describes generalizing h f with
  | nil => exact ⟨h, f, rfl, wf, fun _ _ => rfl, by simp, by simp⟩
  | @cons before entry entries e edges inside new value payload parent _ ih =>
    have parentHere : parentOf (before.map f) entry.parent = some (f e.2.source) := by
      rw [parentOf_map, parent]
      rfl
    have live : f e.2.source ∈ h.nodeIds := placed ▸ mem_of_parentOf parentHere
    -- the new node is renamed to the new handle, all others as before
    let f₁ := Function.update f e.2.target (h.bud entry)
    have old : ∀ id ∈ before, f₁ id = f id := by
      intro id mem
      have differ : id ≠ e.2.target := fun same => new (same ▸ mem)
      exact Function.update_of_ne differ _ _
    have here : f₁ e.2.target = h.bud entry := Function.update_self ..
    have renamed : (before ++ [e.2.target]).map f₁ = before.map f ++ [h.bud entry] := by
      rw [List.map_append, List.map_congr_left old, List.map_singleton, here]
    have placed₁ : (h.sprout (f e.2.source) entry).nodeIds = (before ++ [e.2.target]).map f₁ := by
      rw [nodeIds_sprout wf live, placed, renamed]
    obtain ⟨k, f', grown, kWf, keeps, nodes, arrows⟩ := ih (wf.sprout live) placed₁
    have kept : ∀ id ∈ before, f' id = f id := fun id mem =>
      (keeps id (List.mem_append_left _ mem)).trans (old id mem)
    have new' : f' e.2.target = h.bud entry := (keeps _ (by simp)).trans here
    refine ⟨k, f', ?_, kWf, kept, ?_, ?_⟩
    · rw [grow_cons wf parentHere live, ← renamed, grown]
    · rw [nodes, nodes_sprout wf, List.append_assoc, List.map_cons, value, new']
      rfl
    · rw [arrows, edges_sprout wf, List.append_assoc, List.map_cons, payload,
        kept _ (mem_of_parentOf parent), new']
      rfl

/-- The entries tell of all edges of a tree, at every node in the order of their creation. -/
structure DescribesAll (g : Graph N E) (origin : NodeId) (entries : List (Entry N E))
    (edges : List (EdgeId × Edge E)) : Prop where
  describes : g.Describes [origin] entries edges
  nodeCount : g.nodeCount = edges.length + 1
  perm : edges.Perm g.edges
  ordered : ∀ id, edges.filter (·.2.source = id) = g.edges.filter (·.2.source = id)

/-- No node is the target of two of the edges, so as many as there are edges are all of them. -/
theorem Follows.perm (wf : g.WellFormed) {origin : NodeId} {edges : List (EdgeId × Edge E)}
    (follows : g.Follows [origin] edges) (count : g.edgeCount = edges.length) :
    edges.Perm g.edges := by
  have nodup : (edges.map (·.2.target)).Nodup :=
    (List.nodup_append.mp (follows.nodup (List.nodup_singleton origin))).2.1
  refine (List.subperm_of_subset (List.Nodup.of_map _ nodup) follows.subset).perm_of_length_le ?_
  exact Nat.le_of_eq ((edgeCount_eq wf).symm.trans count)

/-- Entries that describe the whole graph grow into a copy of it. -/
theorem ofEntries?_of_describesAll (wf : g.WellFormed) {origin : NodeId} {value : N}
    {entries : List (Entry N E)} {edges : List (EdgeId × Edge E)}
    (here : g.value? origin = some value) (all : g.DescribesAll origin entries edges) :
    ∃ (k : Graph N E) (f : NodeId → NodeId),
      ofEntries? value entries = some k ∧ k.WellFormed ∧ g.Copies k f := by
  have follows := all.describes.follows
  have first : (createNode (E := E) .empty value).2.nodes =
      [((createNode (E := E) .empty value).1, value)] := nodes_createNode .empty value
  have firstWf : (createNode (E := E) .empty value).2.WellFormed := .createNode .empty value
  have placed : (createNode (E := E) .empty value).2.nodeIds =
      [origin].map fun _ => (createNode (E := E) .empty value).1 := by
    rw [nodeIds_eq firstWf, first]
    rfl
  obtain ⟨k, f, grown, kWf, keeps, nodes, arrows⟩ :=
    grow_of_describes value all.describes firstWf placed
  -- no target comes twice, so as many targets as there are nodes are all of them
  have visited : (origin :: edges.map (·.2.target)).Perm g.nodeIds := by
    have nodup := follows.nodup (List.nodup_singleton origin)
    refine (List.subperm_of_subset nodup ?_).perm_of_length_le ?_
    · intro id mem
      rcases List.mem_cons.mp mem with rfl | arrived
      · rw [nodeIds_eq wf]
        exact List.mem_map.mpr ⟨_, (value?_eq_some_iff wf).mp here, rfl⟩
      · obtain ⟨e, listed, rfl⟩ := List.mem_map.mp arrived
        exact target_mem wf (follows.subset listed)
    · rw [nodeIds_eq wf, List.length_map, ← nodeCount_eq wf, all.nodeCount]
      simp
  have arrows' : k.edges.map (·.2) =
      edges.map fun e => Edge.mk (f e.2.source) (f e.2.target) e.2.value := by
    rw [arrows, edges_createNode]
    rfl
  have renames : g.Renames k f := by
    refine ⟨?_, ?_⟩
    · have payload : g.nodes.map (fun n => (f n.1, n.2)) =
          g.nodeIds.map fun id => (f id, (g.value? id).getD value) := by
        rw [nodeIds_eq wf, List.map_map]
        refine List.map_congr_left fun n mem => ?_
        simp [(value?_eq_some_iff wf).mpr mem]
      have moved := visited.map fun id => (f id, (g.value? id).getD value)
      rw [payload, nodes, first]
      refine moved.symm.trans ?_
      simp [here, keeps origin (List.mem_singleton_self _), Function.comp_def]
    · rw [arrows']
      exact all.perm.symm.map _
  refine ⟨k, f, grown, kWf, renames, fun id live => ?_⟩
  have both := renames.matches wf kWf
  have leaving : (k.edges.map (·.2)).filter (·.source = f id) =
      (edges.filter (·.2.source = id)).map
        fun e => Edge.mk (f e.2.source) (f e.2.target) e.2.value := by
    rw [arrows', List.filter_map]
    congr 1
    refine List.filter_congr fun e mem => ?_
    simp [both.injective kWf (source_mem wf (follows.subset mem)) live]
  rw [outEdges_eq wf, outEdges_eq kWf, ← all.ordered, ← leaving, List.filter_map]
  rfl

/-! ## The entries of walks -/

/-- A jump names the parent as long as its place has 32 bits, and where there is no jump the parent
is the last node. -/
theorem parentOf_jump {before : List NodeId} {e : EdgeId × Edge E}
    (small : before.idxOf e.2.source < 2 ^ 32 ∨ jump before (stepAlong e) = none)
    (source : e.2.source ∈ before) : parentOf before (jump before (stepAlong e)) = some e.2.source := by
  cases last : before.getLast? with
  | none => simp [List.getLast?_eq_none_iff.mp last] at source
  | some id =>
    simp only [jump, stepAlong, last] at small ⊢
    split
    · next same => rw [parentOf, last, same]
    · next differ =>
      have small : before.idxOf e.2.source < 2 ^ 32 := by simpa [differ] using small
      have fits : (UInt32.ofNat (before.idxOf e.2.source)).toNat = before.idxOf e.2.source :=
        UInt32.toNat_ofNat_of_lt' small
      have place := List.idxOf_lt_length_of_mem source
      simp only [parentOf, fits]
      rw [List.getElem?_eq_getElem place, List.getElem_idxOf]

theorem entriesOf_cons {before : List NodeId} {e : EdgeId × Edge E} {rest : List Step} {value : N}
    (found : g.edge? e.1 = some e.2) (here : g.value? e.2.target = some value) :
    g.entriesOf before (stepAlong e :: rest) =
      Entry.walked ⟨jump before (stepAlong e), value, e.2.value⟩ ::
        g.entriesOf (before ++ [e.2.target]) rest := by
  have node : (stepAlong e).node = e.2.target := rfl
  have edge : (stepAlong e).edge = some e.1 := rfl
  simp only [entriesOf, node, edge, here, Option.bind_some, found, Option.map_some]
  rfl

/-- The entries of a walk describe the edges that it took. A place in the list has 32 bits, which
matters only where the walk jumps. -/
theorem entriesOf_walk (wf : g.WellFormed) {before : List NodeId} {edges : List (EdgeId × Edge E)}
    (follows : g.Follows before edges)
    (small : before.length + edges.length ≤ 2 ^ 32 ∨
      ∀ entry ∈ g.entriesOf before (edges.map stepAlong), entry.parent = none) :
    ∃ entries, g.entriesOf before (edges.map stepAlong) = entries.map Entry.walked ∧
      g.Describes before entries edges := by
  induction follows with
  | nil => exact ⟨[], rfl, .nil⟩
  | @cons before e rest inside source new _ ih =>
    obtain ⟨value, here⟩ := (mem_nodeIds_iff_value? wf).mp (target_mem wf inside)
    have found : g.edge? e.1 = some e.2 := (edge?_eq_some_iff wf).mpr inside
    rw [List.length_cons, List.map_cons, entriesOf_cons found here, List.forall_mem_cons] at small
    obtain ⟨entries, written, describes⟩ := ih (small.imp (by simp; omega) And.right)
    refine ⟨⟨jump before (stepAlong e), value, e.2.value⟩ :: entries, ?_, ?_⟩
    · rw [List.map_cons, entriesOf_cons found here, written, List.map_cons]
    · have place := List.idxOf_lt_length_of_mem source
      have parent := parentOf_jump (small.imp (by omega) And.left) source
      exact .cons inside new here rfl parent describes

/-- The entries of a complete walk describe the whole graph, the origin apart. -/
theorem entriesFrom_eq (wf : g.WellFormed) {origin : NodeId} {value : N}
    (here : g.value? origin = some value) (size : g.isTreeSized) (all : g.reachesAll origin)
    (small : g.nodeCount ≤ 2 ^ 32 ∨ ∀ entry ∈ g.entriesFrom origin, entry.parent = none) :
    ∃ entries edges, g.entriesFrom origin = ⟨none, value, none⟩ :: entries.map Entry.walked ∧
      g.DescribesAll origin entries edges := by
  obtain ⟨edges, walked, follows⟩ := walkFrom_eq wf ((mem_nodeIds_iff_value? wf).mpr ⟨value, here⟩)
  have count : g.nodeCount = edges.length + 1 := by
    rw [reachesAll, beq_iff_eq, walked] at all
    simpa using all.symm
  have first : g.entriesFrom origin =
      ⟨none, value, none⟩ :: g.entriesOf [origin] (edges.map stepAlong) := by
    rw [entriesFrom, walked]
    simp [entriesOf, here, jump]
  rw [first, List.forall_mem_cons] at small
  obtain ⟨entries, written, describes⟩ := entriesOf_walk wf follows (by
    rw [List.length_singleton]
    exact small.imp (by omega) And.right)
  have perm : edges.Perm g.edges := by
    refine follows.perm wf ?_
    simp only [isTreeSized, Bool.and_eq_true, beq_iff_eq] at size
    omega
  refine ⟨entries, edges, ?_, describes, count, perm, walkFrom_ordered wf walked perm⟩
  rw [first, written]

/-- A walk writes an entry for every step. -/
theorem entriesFrom_length (wf : g.WellFormed) (origin : NodeId) :
    (g.entriesFrom origin).length = (g.walkFrom origin).length := by
  have all (before : List NodeId) (steps : List Step) (live : ∀ step ∈ steps, step.node ∈ g.nodeIds) :
      (g.entriesOf before steps).length = steps.length := by
    induction steps generalizing before with
    | nil => rfl
    | cons step steps ih =>
      obtain ⟨value, here⟩ :=
        (mem_nodeIds_iff_value? wf).mp (live step (List.mem_cons_self ..))
      have rest := ih (before ++ [step.node]) fun step mem => live step (List.mem_cons_of_mem _ mem)
      simp only [entriesOf, here, List.length_cons, rest]
  exact all [] _ (walk_subset _ _)

/-! ## Chains -/

/-- In a graph without branches a walk never jumps: the stack holds at most the step from the node
that was visited last. -/
theorem parent_none_of_thin (wf : g.WellFormed) (thin : ∀ id, g.outDegree id ≤ 1)
    (unvisited before : List NodeId) (stack : List Step) (short : stack.length ≤ 1)
    (behind : ∀ step ∈ stack, step.parent = before.getLast?) :
    ∀ entry ∈ g.entriesOf before (g.walk unvisited stack), entry.parent = none := by
  fun_induction g.walk unvisited stack generalizing before with
  | case1 => simp [entriesOf]
  | case2 unvisited step stack new ih =>
    obtain rfl : stack = [] := by simpa using short
    have still : jump before step = none := by
      rw [jump, behind step (List.mem_singleton_self _)]
      cases before.getLast? <;> simp
    have later := ih (before ++ [step.node]) (by
      rw [List.append_nil, stepsFrom, List.length_map, outEdges_eq wf,
        ← List.countP_eq_length_filter, ← outDegree_eq wf]
      exact thin step.node) (by
      intro next mem
      rw [List.append_nil, stepsFrom, List.mem_map] at mem
      obtain ⟨e, _, rfl⟩ := mem
      simp)
    intro entry mem
    rw [entriesOf] at mem
    split at mem
    · rcases List.mem_cons.mp mem with rfl | mem
      · exact still
      · exact later entry mem
    · exact later entry mem
  | case3 unvisited step stack old ih =>
    obtain rfl : stack = [] := by simpa using short
    exact ih before (by simp) (by simp)

theorem parent_none_of_chain (wf : g.WellFormed) {origin : NodeId} (chain : g.isChainOrigin origin) :
    ∀ entry ∈ g.entriesFrom origin, entry.parent = none := by
  have thin (id : NodeId) : g.outDegree id ≤ 1 := by
    by_cases live : id ∈ g.nodeIds
    · rw [isChainOrigin, Bool.and_eq_true, List.all_eq_true] at chain
      have both := chain.1 id live
      simp only [Bool.and_eq_true, decide_eq_true_eq] at both
      exact both.2
    · rw [mem_nodeIds wf] at live
      simp [outDegree, outgoing_of_stale live]
  exact parent_none_of_thin wf thin _ _ _ (by simp) (by simp)

/-! ## Stars -/

/-- The entries of the edges of a star. All name the place of the center. -/
def starEntries (g : Graph N E) (edges : List (EdgeId × Edge E)) : List (Entry N E) :=
  edges.filterMap fun e => (g.value? e.2.target).map fun value => ⟨some 0, value, e.2.value⟩

theorem starEntries_length (wf : g.WellFormed) {edges : List (EdgeId × Edge E)}
    (inside : ∀ e ∈ edges, e ∈ g.edges) : (g.starEntries edges).length = edges.length := by
  induction edges with
  | nil => rfl
  | cons e edges ih =>
    obtain ⟨value, here⟩ := (mem_nodeIds_iff_value? wf).mp
      (target_mem wf (inside e (List.mem_cons_self ..)))
    have rest := ih fun e mem => inside e (List.mem_cons_of_mem _ mem)
    rw [starEntries] at rest
    simp only [starEntries, List.filterMap_cons, here, Option.map_some, List.length_cons, rest]

theorem describes_starEntries (wf : g.WellFormed) {center : NodeId} {before : List NodeId}
    {edges : List (EdgeId × Edge E)} (first : before[0]? = some center)
    (inside : ∀ e ∈ edges, e ∈ g.edges ∧ e.2.source = center)
    (new : (before ++ edges.map (·.2.target)).Nodup) :
    g.Describes before (g.starEntries edges) edges := by
  induction edges generalizing before with
  | nil => exact .nil
  | cons e edges ih =>
    obtain ⟨listed, source⟩ := inside e (List.mem_cons_self ..)
    obtain ⟨value, here⟩ := (mem_nodeIds_iff_value? wf).mp (target_mem wf listed)
    have apart : e.2.target ∉ before := by
      intro old
      exact (List.nodup_append.mp new).2.2 _ old _ (by simp) rfl
    rw [starEntries, List.filterMap_cons, here]
    refine .cons listed apart here rfl ?_ (ih ?_ (fun e' mem => inside e' (by simp [mem])) ?_)
    · rw [source]
      exact first
    · rw [List.getElem?_append_left (List.getElem?_eq_some_iff.mp first).1, first]
    · simpa using new

theorem inDegree_eq_count (wf : g.WellFormed) (id : NodeId) :
    g.inDegree id = (g.edges.map (·.2.target)).count id := by
  rw [inDegree_eq wf, List.count, List.countP_map]
  rfl

/-- No two edges of a star arrive at the same node. -/
theorem star_nodup (wf : g.WellFormed) {center : NodeId} (star : g.anchor? .star = some center) :
    (center :: g.edges.map (·.2.target)).Nodup := by
  obtain ⟨_, source, anchor⟩ := anchor?_eq_some_iff.mp star
  have none := (source?_mem source).2
  simp only [isAnchor, isStarCenter, Bool.and_eq_true, List.all_eq_true, Bool.or_eq_true,
    decide_eq_true_eq, beq_iff_eq] at anchor
  rw [List.nodup_cons]
  constructor
  · rw [← List.count_eq_zero, ← inDegree_eq_count wf, none]
  · rw [List.nodup_iff_count_le_one]
    intro id
    rw [← inDegree_eq_count wf]
    by_cases live : id ∈ g.nodeIds
    · rcases anchor.2 id live with rfl | ⟨one, _⟩
      · omega
      · omega
    · rw [mem_nodeIds wf] at live
      simp [inDegree, incoming_of_stale live]

/-- Every edge of a star leaves its center. -/
theorem star_outEdges (wf : g.WellFormed) {center : NodeId} (star : g.anchor? .star = some center) :
    g.outEdges center = g.edges := by
  obtain ⟨size, _, anchor⟩ := anchor?_eq_some_iff.mp star
  simp only [isAnchor, isStarCenter, isTreeSized, Bool.and_eq_true, beq_iff_eq] at anchor size
  rw [outEdges_eq wf, List.filter_eq_self, ← List.countP_eq_length, ← outDegree_eq wf, anchor.1,
    ← edgeCount_eq wf, size.2]

/-- The edges of a star are told one by one. -/
theorem describesAll_star (wf : g.WellFormed) {center : NodeId}
    (star : g.anchor? .star = some center) :
    g.DescribesAll center (g.starEntries g.edges) g.edges := by
  have leave : ∀ e ∈ g.edges, e.2.source = center := by
    rw [← star_outEdges wf star, outEdges_eq wf]
    intro e mem
    simpa using (List.mem_filter.mp mem).2
  refine ⟨?_, ?_, .refl _, fun _ => rfl⟩
  · exact describes_starEntries wf rfl (fun e mem => ⟨mem, leave e mem⟩) (star_nodup wf star)
  · have size := (anchor?_eq_some_iff.mp star).1
    simp only [isTreeSized, Bool.and_eq_true, beq_iff_eq, decide_eq_true_eq] at size
    rw [← edgeCount_eq wf]
    omega

/-! ## Handles of 32 bits -/

/-- The slots of the nodes are numbered with 32 bits, as the handles are. -/
def Addressable (g : Graph N E) : Prop :=
  ∀ id ∈ g.nodeIds, id.handle.slot < 2 ^ 32

/-- No two nodes share a slot, so there are as many nodes as there are slots at most. -/
theorem Addressable.nodeCount_le (addressable : g.Addressable) (wf : g.WellFormed) :
    g.nodeCount ≤ 2 ^ 32 := by
  have live {id : NodeId} (mem : id ∈ g.nodeIds) : ∃ node, g.nodeArena.get? id.handle = some node :=
    Option.isSome_iff_exists.mp ((mem_nodeIds wf).mp mem)
  have nodup : (g.nodeIds.map (·.handle.slot)).Nodup := by
    refine (nodeIds_nodup wf).map_on fun a first b second same => ?_
    obtain ⟨node, here⟩ := live first
    obtain ⟨node', there⟩ := live second
    exact NodeId.handle_inj.mp (Arena.eq_of_slot_eq here there same)
  have inside : g.nodeIds.map (·.handle.slot) ⊆ List.range (2 ^ 32) := by
    intro slot mem
    obtain ⟨id, live', rfl⟩ := List.mem_map.mp mem
    exact List.mem_range.mpr (addressable id live')
  have short := (List.subperm_of_subset nodup inside).length_le
  rwa [List.length_map, List.length_range, nodeIds_eq wf, List.length_map, ← nodeCount_eq wf]
    at short

theorem InRange.addressable (range : g.InRange) (wf : g.WellFormed) : g.Addressable := by
  intro id mem
  have live : (g.nodeArena.get? id.handle).isSome := (mem_nodeIds wf).mp mem
  exact Nat.lt_trans (Arena.slot_lt_of_live live) range.nodes.length_lt

end Graph

end Tangible
