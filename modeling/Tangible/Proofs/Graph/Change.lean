import Tangible.Proofs.Graph.Generation
import Tangible.Proofs.Graph.Invariant
import Tangible.Proofs.Lists

/-!
# Changes of graphs

`Change` is the syntax of the operations on a graph, so that a history is a list of changes. The
reachable graphs are those at the end of a history (`reachable_iff`).

A handle is spent in a graph if it is spent in the arena it belongs to. Up to `2 ^ 32` insertions a
change either clears the graph or keeps every spent handle spent (`Later.spent`), and it leaves a
spent handle where an element was (`Later.resolves_or_spent`).

The handle of an element that is gone is therefore refused in every later state, unless the graph
was cleared in the meantime and a later insertion returned the same handle once more
(`refuses_or_reissued`). Clearing forgets the generations with the slots, so that does happen
(`cleared_handle_resolves`).
-/

namespace Tangible

/-- A change names nodes by `ν` and edges by `ε`. -/
inductive Change (ν ε N E : Type) where
  | createNode (value : N)
  | createEdge (source target : ν) (value : E)
  | removeNode (node : ν)
  | removeEdge (edge : ε)
  | setNode (node : ν) (value : N)
  | setEdge (edge : ε) (value : E)
  | mapNodes (f : N → N)
  | clear

/-- A handle of either sort. -/
inductive Ref where
  | node (id : NodeId)
  | edge (id : EdgeId)
deriving DecidableEq

def Ref.handle : Ref → Handle
  | .node id => id.handle
  | .edge id => id.handle

namespace Graph

variable {N E : Type} {g h k : Graph N E} {m n : Nat} {r : Ref}

/-! ## Histories -/

def apply (g : Graph N E) : Change NodeId EdgeId N E → Graph N E
  | .createNode value => (g.createNode value).2
  | .createEdge source target value => ((g.createEdge? source target value).map (·.2)).getD g
  | .removeNode id => g.removeNode id
  | .removeEdge id => g.removeEdge id
  | .setNode id value => g.setNode id value
  | .setEdge id value => g.setEdge id value
  | .mapNodes f => g.mapNodes f
  | .clear => g.clear

/-- The handle that a change returns. A refused edge has none. -/
def issued (g : Graph N E) : Change NodeId EdgeId N E → Option Ref
  | .createNode value => some (.node (g.createNode value).1)
  | .createEdge source target value => (g.createEdge? source target value).map (.edge ·.1)
  | _ => none

def applyAll (g : Graph N E) (changes : List (Change NodeId EdgeId N E)) : Graph N E :=
  changes.foldl apply g

/-- The number of elements that the changes insert. -/
def insertions (g : Graph N E) : List (Change NodeId EdgeId N E) → Nat
  | [] => 0
  | change :: rest => (g.issued change).toList.length + (g.apply change).insertions rest

theorem applyAll_append (before after : List (Change NodeId EdgeId N E)) :
    g.applyAll (before ++ after) = (g.applyAll before).applyAll after :=
  List.foldl_append

theorem insertions_append (before after : List (Change NodeId EdgeId N E)) :
    g.insertions (before ++ after) =
      g.insertions before + (g.applyAll before).insertions after := by
  induction before generalizing g with
  | nil => simp [insertions, applyAll]
  | cons change before ih =>
    rw [List.cons_append, insertions, insertions, ih, Nat.add_assoc]
    rfl

theorem Reachable.apply (reachable : g.Reachable) (change : Change NodeId EdgeId N E) :
    (g.apply change).Reachable := by
  cases change with
  | createNode value => exact reachable.createNode value
  | createEdge source target value =>
    rw [Graph.apply]
    cases made : g.createEdge? source target value with
    | none => exact reachable
    | some result => exact reachable.createEdge made
  | removeNode id => exact reachable.removeNode id
  | removeEdge id => exact reachable.removeEdge id
  | setNode id value => exact reachable.setNode id value
  | setEdge id value => exact reachable.setEdge id value
  | mapNodes f => exact reachable.mapNodes f
  | clear => exact reachable.clear

theorem Reachable.applyAll (reachable : g.Reachable) (changes : List (Change NodeId EdgeId N E)) :
    (g.applyAll changes).Reachable := by
  induction changes generalizing g with
  | nil => exact reachable
  | cons change changes ih => exact ih (reachable.apply change)

theorem setNode_eq (value : N) {x : N} {out into : List EdgeId} {generation : UInt32}
    {before behind : List (Slot (Node N))}
    (slots : g.nodeArena.slots = before ++ ⟨generation, some ⟨x, out, into⟩⟩ :: behind) :
    g.setNode ⟨before.length, generation⟩ value =
      { g with nodeArena := { g.nodeArena with
        slots := before ++ ⟨generation, some ⟨value, out, into⟩⟩ :: behind } } := by
  have found : g.nodeArena.get? ⟨before.length, generation⟩ = some ⟨x, out, into⟩ := by
    simp [Arena.get?, slots]
  simp [setNode, modifyNode, Arena.modify, found, slots]

/-- The slots of `before` are done, those of `behind` are still to be filled. -/
theorem exists_setNodes_behind (values : List N) (before behind : List (Slot (Node N)))
    (slots : g.nodeArena.slots = before ++ behind) :
    ∃ updates : List (NodeId × N),
      g.applyAll (updates.map fun u => .setNode u.1 u.2) =
        { g with nodeArena := { g.nodeArena with
          slots := before ++
            Arena.zipSlots (fun value node => { node with value }) behind values } } := by
  induction behind generalizing g before values with
  | nil =>
    refine ⟨[], ?_⟩
    cases values <;> simp [applyAll, Arena.zipSlots, ← slots]
  | cons slot behind ih =>
    cases values with
    | nil => exact ⟨[], by simp [applyAll, Arena.zipSlots, ← slots]⟩
    | cons value values =>
      obtain ⟨generation, _ | ⟨x, out, into⟩⟩ := slot
      · obtain ⟨updates, done⟩ := ih (value :: values) (before ++ [⟨generation, none⟩])
          (by rw [slots, List.append_assoc]; rfl)
        refine ⟨updates, ?_⟩
        rw [done, List.append_assoc]
        rfl
      · have first := setNode_eq value slots
        obtain ⟨updates, done⟩ := ih (g := g.setNode ⟨before.length, generation⟩ value) values
          (before ++ [⟨generation, some ⟨value, out, into⟩⟩])
          (by rw [first, List.append_assoc]; rfl)
        refine ⟨(⟨before.length, generation⟩, value) :: updates, ?_⟩
        show (g.setNode ⟨before.length, generation⟩ value).applyAll _ = _
        rw [done, first, List.append_assoc]
        rfl

/-- Giving the nodes new payloads in the order of their slots is a run of single updates. -/
theorem exists_setNodes (g : Graph N E) (values : List N) :
    ∃ updates : List (NodeId × N),
      g.applyAll (updates.map fun u => .setNode u.1 u.2) = g.assignNodes values :=
  exists_setNodes_behind values [] g.nodeArena.slots rfl

/-- The graphs that the operations make are those at the end of a history. -/
theorem reachable_iff : g.Reachable ↔ ∃ changes, empty.applyAll changes = g := by
  have extend {g : Graph N E} (more : List (Change NodeId EdgeId N E))
      (history : ∃ changes, empty.applyAll changes = g) :
      ∃ changes, empty.applyAll changes = g.applyAll more := by
    obtain ⟨changes, rfl⟩ := history
    exact ⟨changes ++ more, applyAll_append ..⟩
  constructor
  · intro reachable
    induction reachable with
    | empty => exact ⟨[], rfl⟩
    | createNode value _ history => exact extend [.createNode value] history
    | @createEdge g h source target value id _ made history =>
      have step : g.applyAll [.createEdge source target value] = h := by
        simp [applyAll, Graph.apply, made]
      exact step ▸ extend [.createEdge source target value] history
    | removeNode id _ history => exact extend [.removeNode id] history
    | removeEdge id _ history => exact extend [.removeEdge id] history
    | setNode id value _ history => exact extend [.setNode id value] history
    | setEdge id value _ history => exact extend [.setEdge id value] history
    | mapNodes f _ history => exact extend [.mapNodes f] history
    | @assignNodes g values _ history =>
      obtain ⟨updates, done⟩ := exists_setNodes g values
      exact done ▸ extend _ history
    | clear _ history => exact extend [.clear] history
  · rintro ⟨changes, rfl⟩
    exact Reachable.empty.applyAll changes

/-! ## What a handle is good for -/

def Resolves (g : Graph N E) : Ref → Prop
  | .node id => (g.value? id).isSome
  | .edge id => (g.edge? id).isSome

/-- The handle finds nothing, removing through it changes nothing, and it is no end of an edge. -/
def Refuses (g : Graph N E) : Ref → Prop
  | .node id => g.value? id = none ∧ g.removeNode id = g ∧
      ∀ other value, g.createEdge? id other value = none ∧ g.createEdge? other id value = none
  | .edge id => g.edge? id = none ∧ g.removeEdge id = g

def Spent (g : Graph N E) : Ref → Prop
  | .node id => g.nodeArena.Spent id.handle
  | .edge id => g.edgeArena.Spent id.handle

instance (g : Graph N E) : ∀ r, Decidable (g.Resolves r)
  | .node id => inferInstanceAs (Decidable ((g.value? id).isSome = true))
  | .edge id => inferInstanceAs (Decidable ((g.edge? id).isSome = true))

theorem value?_isSome (id : NodeId) : (g.value? id).isSome = g.contains id := by
  rw [value?, Option.isSome_map, contains]

theorem refuses_of_stale (stale : ¬ g.Resolves r) : g.Refuses r := by
  cases r with
  | node id =>
    have absent : ¬ g.contains id := by rwa [← value?_isSome]
    have missing : g.nodeArena.get? id.handle = none := by
      rwa [contains, Bool.not_eq_true, Option.isSome_eq_false_iff, Option.isNone_iff_eq_none]
        at absent
    refine ⟨by simpa [Resolves] using stale, ?_, fun other value => ⟨?_, ?_⟩⟩
    · rw [removeNode, outgoing_of_stale absent, incoming_of_stale absent]
      show { g with nodeArena := g.nodeArena.erase id.handle } = g
      rw [Arena.erase_of_stale missing]
    · simp [createEdge?, absent]
    · simp [createEdge?, absent]
  | edge id =>
    have missing : g.edge? id = none := by simpa [Resolves] using stale
    exact ⟨missing, by rw [removeEdge, missing]⟩

theorem Spent.stale (spent : g.Spent r) : ¬ g.Resolves r := by
  cases r with
  | node id =>
    have missing : g.node? id = none := Arena.Spent.stale spent
    simp [Resolves, value?, missing]
  | edge id =>
    have missing : g.edge? id = none := Arena.Spent.stale spent
    simp [Resolves, missing]

theorem Spent.not_issued (spent : g.Spent r) (change : Change NodeId EdgeId N E) :
    g.issued change ≠ some r := by
  intro issued
  cases change with
  | createNode value =>
    obtain rfl := Option.some.inj issued
    exact Arena.Spent.ne_nextHandle spent rfl
  | createEdge source target value =>
    obtain ⟨⟨id, h⟩, made, rfl⟩ := Option.map_eq_some_iff.mp issued
    obtain ⟨_, rfl, _⟩ := (createEdge?_eq_some ..).mp made
    exact Arena.Spent.ne_nextHandle spent rfl
  | _ => simp [Graph.issued] at issued

theorem resolves_node_iff (wf : g.WellFormed) (id : NodeId) :
    g.Resolves (.node id) ↔ id ∈ g.nodeIds := by
  rw [mem_nodeIds wf, ← value?_isSome]
  rfl

theorem resolves_edge_iff (wf : g.WellFormed) (id : EdgeId) :
    g.Resolves (.edge id) ↔ id ∈ g.edges.map (·.1) := by
  rw [Resolves, Option.isSome_iff_exists, List.mem_map]
  constructor
  · rintro ⟨edge, found⟩
    exact ⟨(id, edge), (edge?_eq_some_iff wf).mp found, rfl⟩
  · rintro ⟨⟨_, edge⟩, inside, rfl⟩
    exact ⟨edge, (edge?_eq_some_iff wf).mpr inside⟩

/-! ## One change -/

theorem apply_createEdge (source target : NodeId) (value : E) :
    g.apply (.createEdge source target value) =
      if g.contains source ∧ g.contains target then g.link source target value else g := by
  rw [apply]
  cases made : g.createEdge? source target value with
  | none =>
    have stale : ¬ (g.contains source ∧ g.contains target) := by
      rw [← createEdge?_isSome_iff source target value, made]
      simp
    rw [if_neg stale]
    rfl
  | some made' =>
    obtain ⟨live, _, linked⟩ := (createEdge?_eq_some ..).mp made
    rw [if_pos live, ← linked]
    rfl

theorem issued_createEdge (source target : NodeId) (value : E) :
    g.issued (.createEdge source target value) =
      if g.contains source ∧ g.contains target then some (.edge ⟨g.edgeArena.nextHandle⟩)
      else none := by
  rw [issued, createEdge?]
  split <;> rfl

theorem WellFormed.apply (wf : g.WellFormed) (change : Change NodeId EdgeId N E) :
    (g.apply change).WellFormed := by
  cases change with
  | createNode value => exact wf.createNode value
  | createEdge source target value =>
    rw [apply_createEdge]
    split
    · next live => exact wf.link live.1 live.2 value
    · exact wf
  | removeNode id => exact wf.removeNode id
  | removeEdge id => exact wf.removeEdge id
  | setNode id value => exact wf.setNode id value
  | setEdge id value => exact wf.setEdge id value
  | mapNodes f => exact wf.mapNodes f
  | clear => exact .empty

theorem WellFormed.applyAll (wf : g.WellFormed) (changes : List (Change NodeId EdgeId N E)) :
    (g.applyAll changes).WellFormed := by
  induction changes generalizing g with
  | nil => exact wf
  | cons change changes ih => exact ih (wf.apply change)

/-- What resolves after a change did so before, or the change returned it. -/
theorem resolves_or_issued (wf : g.WellFormed) {change : Change NodeId EdgeId N E}
    (live : (g.apply change).Resolves r) : g.Resolves r ∨ g.issued change = some r := by
  have wf' := wf.apply change
  cases r with
  | node id =>
    rw [resolves_node_iff wf', nodeIds_eq wf'] at live
    rw [resolves_node_iff wf, nodeIds_eq wf]
    cases change with
    | createNode value =>
      rw [apply, nodes_createNode wf, List.map_append, List.mem_append] at live
      refine live.imp_right fun new => ?_
      rw [issued, List.mem_singleton.mp new]
    | createEdge source target value =>
      rw [apply_createEdge] at live
      split at live
      · rw [nodes_link] at live
        exact .inl live
      · exact .inl live
    | removeNode id' =>
      rw [apply, nodes_removeNode] at live
      exact .inl ((List.filter_sublist.map _).subset live)
    | removeEdge id' =>
      rw [apply, nodes_removeEdge] at live
      exact .inl live
    | setNode id' value =>
      rw [apply, nodes_setNode, map_fst_update _ (· = id') fun _ => value] at live
      exact .inl live
    | setEdge id' value => exact .inl live
    | mapNodes f =>
      rw [apply, nodes_mapNodes, List.map_map] at live
      exact .inl live
    | clear => simp [apply, clear, Graph.empty, nodes, Arena.entries, Arena.empty] at live
  | edge id =>
    rw [resolves_edge_iff wf'] at live
    rw [resolves_edge_iff wf]
    cases change with
    | createNode value => exact .inl live
    | createEdge source target value =>
      rw [issued_createEdge]
      rw [apply_createEdge] at live
      split at live
      · next both =>
        rw [edges_link wf, List.map_append, List.mem_append] at live
        refine live.imp_right fun new => ?_
        rw [if_pos both, List.mem_singleton.mp new]
      · exact .inl live
    | removeNode id' =>
      rw [apply, edges_removeNode wf] at live
      exact .inl ((List.filter_sublist.map _).subset live)
    | removeEdge id' =>
      rw [apply, edges_removeEdge] at live
      exact .inl ((List.filter_sublist.map _).subset live)
    | setNode id' value => exact .inl live
    | setEdge id' value =>
      rw [apply, edges_setEdge,
        map_fst_update _ (· = id') fun edge : Edge E => { edge with value }] at live
      exact .inl live
    | mapNodes f => exact .inl live
    | clear => simp [apply, clear, Graph.empty, edges, Arena.entries, Arena.empty] at live

theorem stale_of_issued (wf : g.WellFormed) {change : Change NodeId EdgeId N E}
    (issued : g.issued change = some r) : ¬ g.Resolves r := by
  cases change with
  | createNode value =>
    obtain rfl := Option.some.inj issued
    rw [Resolves, value?_isSome]
    exact createNode_stale wf value
  | createEdge source target value =>
    rw [issued_createEdge] at issued
    split at issued
    · obtain rfl := Option.some.inj issued
      have stale : g.edge? ⟨g.edgeArena.nextHandle⟩ = none := wf.edgeArena.nextHandle_stale
      simp [Resolves, stale]
    · simp at issued
  | _ => simp [Graph.issued] at issued

theorem resolves_of_issued (wf : g.WellFormed) {change : Change NodeId EdgeId N E}
    (issued : g.issued change = some r) : (g.apply change).Resolves r := by
  have wf' := wf.apply change
  cases change with
  | createNode value =>
    obtain rfl := Option.some.inj issued
    rw [resolves_node_iff wf', nodeIds_eq wf', apply, nodes_createNode wf]
    simp
  | createEdge source target value =>
    rw [issued_createEdge] at issued
    split at issued
    · next live =>
      obtain rfl := Option.some.inj issued
      rw [resolves_edge_iff wf', apply_createEdge, if_pos live, edges_link wf]
      simp
    · simp at issued
  | _ => simp [Graph.issued] at issued

/-! ## Changes that do not clear -/

/-- Both arenas are later ones, neither by more than `n` insertions. -/
structure Later (g h : Graph N E) (n : Nat) : Prop where
  nodes : ∃ p ≤ n, g.nodeArena.Later h.nodeArena p
  edges : ∃ p ≤ n, g.edgeArena.Later h.edgeArena p

structure Aged (g : Graph N E) (n : Nat) : Prop where
  nodes : g.nodeArena.Aged n
  edges : g.edgeArena.Aged n

structure InRange (g : Graph N E) : Prop where
  nodes : g.nodeArena.InRange
  edges : g.edgeArena.InRange

theorem Aged.empty : (Graph.empty : Graph N E).Aged 0 :=
  ⟨.empty, .empty⟩

theorem Aged.mono (aged : g.Aged m) (le : m ≤ n) : g.Aged n :=
  ⟨aged.nodes.mono le, aged.edges.mono le⟩

theorem nodeArena_later_modifyNode (f : Node N → Node N) (id : NodeId) :
    g.nodeArena.Later (g.modifyNode id f).nodeArena 0 :=
  .revalue .refl (.of_modify (fun _ => trivial) f id.handle fun _ _ => trivial)

theorem nodeArena_later_relink (edges : Arena (Edge E)) (source target : NodeId)
    (out into : List EdgeId → List EdgeId) :
    g.nodeArena.Later (g.relink edges source target out into).nodeArena 0 :=
  (nodeArena_later_modifyNode (g := { g with edgeArena := edges }) ..).trans
    (nodeArena_later_modifyNode ..)

namespace Later

theorem refl (g : Graph N E) : g.Later g 0 :=
  ⟨⟨0, Nat.le_refl _, .refl⟩, ⟨0, Nat.le_refl _, .refl⟩⟩

theorem trans (first : g.Later h m) (second : h.Later k n) : g.Later k (m + n) := by
  obtain ⟨⟨p, p_le, nodes⟩, ⟨q, q_le, edges⟩⟩ := first
  obtain ⟨⟨p', p'_le, nodes'⟩, ⟨q', q'_le, edges'⟩⟩ := second
  exact ⟨⟨p + p', Nat.add_le_add p_le p'_le, nodes.trans nodes'⟩,
    ⟨q + q', Nat.add_le_add q_le q'_le, edges.trans edges'⟩⟩

theorem removeEdge (g : Graph N E) (id : EdgeId) : g.Later (g.removeEdge id) 0 := by
  cases found : g.edge? id with
  | none =>
    rw [Graph.removeEdge, found]
    exact .refl g
  | some edge =>
    rw [removeEdge_eq found]
    exact ⟨⟨0, Nat.le_refl _, nodeArena_later_relink ..⟩,
      ⟨0, Nat.le_refl _, .erase id.handle .refl⟩⟩

theorem foldl_removeEdge (g : Graph N E) (ids : List EdgeId) :
    g.Later (ids.foldl Graph.removeEdge g) 0 := by
  induction ids generalizing g with
  | nil => exact .refl g
  | cons id ids ih => exact (removeEdge g id).trans (ih (g.removeEdge id))

theorem removeNode (g : Graph N E) (id : NodeId) : g.Later (g.removeNode id) 0 := by
  have cut := foldl_removeEdge g (g.outgoing id ++ g.incoming id)
  rw [Graph.removeNode]
  generalize (g.outgoing id ++ g.incoming id).foldl Graph.removeEdge g = h at cut
  have erased : h.Later { h with nodeArena := h.nodeArena.erase id.handle } 0 :=
    ⟨⟨0, Nat.le_refl _, .erase id.handle .refl⟩, ⟨0, Nat.le_refl _, .refl⟩⟩
  exact cut.trans erased

theorem apply {change : Change NodeId EdgeId N E} (kept : change ≠ .clear) :
    g.Later (g.apply change) (g.issued change).toList.length := by
  cases change with
  | createNode value =>
    exact ⟨⟨1, Nat.le_refl _, .insert _ .refl⟩, ⟨0, Nat.zero_le _, .refl⟩⟩
  | createEdge source target value =>
    rw [apply_createEdge, issued_createEdge]
    split
    · exact ⟨⟨0, Nat.zero_le _, nodeArena_later_relink ..⟩, ⟨1, Nat.le_refl _, .insert _ .refl⟩⟩
    · exact .refl g
  | removeNode id => exact removeNode g id
  | removeEdge id => exact removeEdge g id
  | setNode id value =>
    exact ⟨⟨0, Nat.le_refl _, nodeArena_later_modifyNode ..⟩, ⟨0, Nat.le_refl _, .refl⟩⟩
  | setEdge id value =>
    exact ⟨⟨0, Nat.le_refl _, .refl⟩, ⟨0, Nat.le_refl _,
      .revalue .refl (.of_modify (fun _ => trivial) _ id.handle fun _ _ => trivial)⟩⟩
  | mapNodes f =>
    exact ⟨⟨0, Nat.le_refl _, .revalue .refl (.of_map _ fun _ => trivial)⟩,
      ⟨0, Nat.le_refl _, .refl⟩⟩
  | clear => exact absurd rfl kept

theorem applyAll {changes : List (Change NodeId EdgeId N E)} (kept : .clear ∉ changes) :
    g.Later (g.applyAll changes) (g.insertions changes) := by
  induction changes generalizing g with
  | nil => exact .refl g
  | cons change changes ih =>
    rw [List.mem_cons, not_or] at kept
    exact (apply (Ne.symm kept.1)).trans (ih kept.2)

theorem aged (later : g.Later h n) (wf : g.WellFormed) (aged : g.Aged m) (few : m + n < 2 ^ 32) :
    h.Aged (m + n) := by
  obtain ⟨⟨p, p_le, nodes⟩, ⟨q, q_le, edges⟩⟩ := later
  exact ⟨(nodes.aged wf.nodeArena aged.nodes (by omega)).mono (by omega),
    (edges.aged wf.edgeArena aged.edges (by omega)).mono (by omega)⟩

theorem spent (later : g.Later h n) (wf : g.WellFormed) (aged : g.Aged m)
    (few : m + n < 2 ^ 32) (spent : g.Spent r) : h.Spent r := by
  obtain ⟨⟨p, p_le, nodes⟩, ⟨q, q_le, edges⟩⟩ := later
  cases r with
  | node id => exact nodes.spent wf.nodeArena aged.nodes (by omega) spent
  | edge id => exact edges.spent wf.edgeArena aged.edges (by omega) spent

theorem resolves_or_spent (later : g.Later h n) (wf : g.WellFormed) (aged : g.Aged m)
    (few : m + n < 2 ^ 32) (live : g.Resolves r) : h.Resolves r ∨ h.Spent r := by
  obtain ⟨⟨p, p_le, nodes⟩, ⟨q, q_le, edges⟩⟩ := later
  cases r with
  | node id =>
    rw [Resolves, value?_isSome] at live ⊢
    exact nodes.live_or_spent wf.nodeArena aged.nodes (by omega) live
  | edge id => exact edges.live_or_spent wf.edgeArena aged.edges (by omega) live

end Later

/-! ## Whole histories -/

theorem Aged.apply (aged : g.Aged m) (wf : g.WellFormed) {change : Change NodeId EdgeId N E}
    (few : m + (g.issued change).toList.length < 2 ^ 32) :
    (g.apply change).Aged (m + (g.issued change).toList.length) := by
  cases change with
  | clear => exact Aged.empty.mono (Nat.zero_le _)
  | _ => exact (Later.apply (by simp)).aged wf aged few

theorem Aged.applyAll (aged : g.Aged m) (wf : g.WellFormed)
    {changes : List (Change NodeId EdgeId N E)} (few : m + g.insertions changes < 2 ^ 32) :
    (g.applyAll changes).Aged (m + g.insertions changes) := by
  induction changes generalizing g m with
  | nil => exact aged
  | cons change changes ih =>
    rw [insertions, ← Nat.add_assoc] at few ⊢
    exact ih (aged.apply wf (by omega)) (wf.apply change) few

theorem Aged.inRange (aged : g.Aged n) (wf : g.WellFormed) (few : n < 2 ^ 32) : g.InRange :=
  ⟨aged.nodes.inRange wf.nodeArena few, aged.edges.inRange wf.edgeArena few⟩

/-- Fewer insertions than words leave no more slots than handles can tell apart. -/
theorem inRange_applyAll {changes : List (Change NodeId EdgeId N E)}
    (few : insertions (N := N) (E := E) empty changes < 2 ^ 32) :
    (applyAll empty changes).InRange := by
  have fewer : 0 + insertions (N := N) (E := E) empty changes < 2 ^ 32 := by omega
  exact (Aged.empty.applyAll .empty fewer).inRange (WellFormed.empty.applyAll changes) fewer

/-- The handle of an element, be it gone or not, loses nothing of the number of its slot. -/
theorem InRange.toNat_index (range : g.InRange) (known : g.Resolves r ∨ g.Spent r) :
    r.handle.index.toNat = r.handle.slot := by
  cases r with
  | node id =>
    refine range.nodes.toNat_index (known.elim (fun live => ?_) Arena.Spent.slot_lt)
    rw [Resolves, value?_isSome] at live
    exact Arena.slot_lt_of_live live
  | edge id =>
    exact range.edges.toNat_index (known.elim Arena.slot_lt_of_live Arena.Spent.slot_lt)

/-- Nor do the handles that a run returns. -/
theorem toNat_index_of_issued (before : List (Change NodeId EdgeId N E))
    (change : Change NodeId EdgeId N E)
    (few : insertions (N := N) (E := E) empty (before ++ [change]) < 2 ^ 32)
    (issued : (applyAll empty before).issued change = some r) :
    r.handle.index.toNat = r.handle.slot := by
  have live : (applyAll empty (before ++ [change])).Resolves r := by
    rw [applyAll_append]
    exact resolves_of_issued (WellFormed.empty.applyAll before) issued
  exact (inRange_applyAll few).toNat_index (.inl live)

/-- A handle that comes to resolve is returned on the way. -/
theorem exists_issued (wf : g.WellFormed) {changes : List (Change NodeId EdgeId N E)}
    (stale : ¬ g.Resolves r) (live : (g.applyAll changes).Resolves r) :
    ∃ before change after, changes = before ++ change :: after ∧
      ¬ (g.applyAll before).Resolves r ∧ (g.applyAll before).issued change = some r := by
  induction changes generalizing g with
  | nil => exact absurd live stale
  | cons change changes ih =>
    by_cases next : (g.apply change).Resolves r
    · have issued := (resolves_or_issued wf next).resolve_left stale
      exact ⟨[], change, changes, rfl, stale, issued⟩
    · obtain ⟨before, change', after, rfl, stale', issued⟩ := ih (wf.apply change) next live
      exact ⟨change :: before, change', after, rfl, stale', issued⟩

/-- Once its element is gone, a handle is refused for good. Only a graph that was cleared at that
moment or later may return the handle again, for an element of its own. -/
theorem refuses_or_reissued (before : List (Change NodeId EdgeId N E))
    (change : Change NodeId EdgeId N E) (after : List (Change NodeId EdgeId N E))
    (few : insertions (N := N) (E := E) empty (before ++ change :: after) < 2 ^ 32) (r : Ref)
    (live : (applyAll empty before).Resolves r)
    (gone : ¬ ((applyAll empty before).apply change).Resolves r) :
    (applyAll empty (before ++ change :: after)).Refuses r ∨
      ∃ meanwhile insertion rest, after = meanwhile ++ insertion :: rest ∧
        .clear ∈ change :: meanwhile ∧
        (applyAll empty (before ++ change :: meanwhile)).issued insertion = some r := by
  have wf : (applyAll empty before).WellFormed := WellFormed.empty.applyAll before
  have aged : (applyAll empty before).Aged (insertions (N := N) (E := E) empty before) := by
    have total := insertions_append (g := (empty : Graph N E)) before (change :: after)
    have fewer : 0 + insertions (N := N) (E := E) empty before < 2 ^ 32 := by omega
    have aged := Aged.empty.applyAll .empty fewer
    rwa [Nat.zero_add] at aged
  rw [insertions_append] at few
  simp only [applyAll_append]
  generalize applyAll empty before = g at *
  by_cases back : (g.applyAll (change :: after)).Resolves r
  · obtain ⟨meanwhile, insertion, rest, rfl, stale, issued⟩ :=
      exists_issued (wf.apply change) gone back
    refine .inr ⟨meanwhile, insertion, rest, rfl, ?_, issued⟩
    by_contra kept
    -- without a clear the handle is spent up to the insertion, which then returns another one
    have later : g.Later (g.applyAll (change :: meanwhile)) (g.insertions (change :: meanwhile)) :=
      .applyAll kept
    have total := insertions_append (g := g) (change :: meanwhile) (insertion :: rest)
    rw [List.cons_append] at total
    have spent := (later.resolves_or_spent wf aged (by omega) live).resolve_left stale
    exact spent.not_issued insertion issued
  · exact .inl (refuses_of_stale back)

/-- Two nodes, an edge between them and a loop at the second. -/
def loopedPair : List (Change NodeId EdgeId Nat Nat) :=
  [.createNode 1, .createNode 2, .createEdge ⟨0, 0⟩ ⟨1, 0⟩ 7, .createEdge ⟨1, 0⟩ ⟨1, 0⟩ 8]

/-- The loop goes with its node, and its slot is filled again. -/
theorem refuses_or_reissued_loop :
    (empty.applyAll loopedPair).Resolves (.edge ⟨1, 0⟩) ∧
      ¬ ((empty.applyAll loopedPair).apply (.removeNode ⟨1, 0⟩)).Resolves (.edge ⟨1, 0⟩) ∧
      let after := [.createNode 3, .createEdge ⟨1, 1⟩ ⟨0, 0⟩ 9, .createEdge ⟨0, 0⟩ ⟨1, 1⟩ 5]
      empty.insertions (loopedPair ++ .removeNode ⟨1, 0⟩ :: after) < 2 ^ 32 ∧
        (empty.applyAll (loopedPair ++ .removeNode ⟨1, 0⟩ :: after)).Refuses (.edge ⟨1, 0⟩) := by
  have live : (empty.applyAll loopedPair).Resolves (.edge ⟨1, 0⟩) := by decide
  have gone : ¬ ((empty.applyAll loopedPair).apply (.removeNode ⟨1, 0⟩)).Resolves
      (.edge ⟨1, 0⟩) := by decide
  refine ⟨live, gone, ?_⟩
  intro after
  have few : empty.insertions (loopedPair ++ .removeNode ⟨1, 0⟩ :: after) < 2 ^ 32 := by decide
  refine ⟨few, ?_⟩
  rcases refuses_or_reissued _ _ after few _ live gone with
    refused | ⟨meanwhile, _, rest, split, cleared, _⟩
  · exact refused
  · have inside : .clear ∈ .removeNode ⟨1, 0⟩ :: after := by
      rw [split]
      rcases List.mem_cons.mp cleared with same | behind
      · exact same ▸ List.mem_cons_self
      · exact List.mem_cons_of_mem _ (List.mem_append_left _ behind)
    simp [after] at inside

/-- The first node after a clear gets the handle of the first node before it. -/
theorem cleared_handle_resolves :
    (empty.applyAll [.createNode 1] : Graph Nat Nat).Resolves (.node ⟨0, 0⟩) ∧
      ¬ (empty.applyAll [.createNode 1, .clear] : Graph Nat Nat).Resolves (.node ⟨0, 0⟩) ∧
      (empty.applyAll [.createNode 1, .clear, .createNode 2] : Graph Nat Nat).value? ⟨0, 0⟩ =
        some 2 := by
  decide

end Graph

end Tangible
