import Mathlib.Data.List.Basic
import Tangible.Proofs.Graph.Shape

/-!
# Trees grown from entries

An origin has the place 0, and the entries behind it have the places from 1 on. An entry hangs below
the place that it names, or below the place before its own.

Growing goes through if and only if every entry names a place before its own
(`ofEntries?_isSome_iff`). The graph then has the origin and the entries as its nodes and an edge to
each entry from its parent (`Grown.tells`). Every node is reached from the origin along edges, and
one edge arrives at each other node, so all that a trunk tree asks for beyond that is that only the
first entry hangs below the origin (`Grown.anchor?_eq_some_iff`).
-/

namespace Tangible

variable {N E : Type}

/-- The place of the parent of an entry that stands at the given place itself. -/
def Entry.parentPlace (entry : Entry N E) (place : Nat) : Nat :=
  match entry.parent with
  | some parent => parent.toNat
  | none => place - 1

/-- The parents of the entries stand before them. The first entry has the given place. -/
def Known (entries : List (Entry N E)) (first : Nat) : Prop :=
  ∀ row ∈ entries.zipIdx first, row.1.parentPlace row.2 < row.2

/-- The parents of the entries stand before them, and the origin has no child but the first
entry. -/
structure Planted (entries : List (Entry N E)) : Prop where
  known : Known entries 1
  trunk : ∀ row ∈ entries.zipIdx 1, row.2 ≠ 1 → row.1.parentPlace row.2 ≠ 0

instance (entries : List (Entry N E)) (first : Nat) : Decidable (Known entries first) :=
  inferInstanceAs (Decidable (∀ row ∈ entries.zipIdx first, row.1.parentPlace row.2 < row.2))

instance (entries : List (Entry N E)) : Decidable (Planted entries) :=
  decidable_of_iff (_ ∧ _) ⟨fun both => ⟨both.1, both.2⟩, fun planted => ⟨planted.1, planted.2⟩⟩

namespace Graph

variable {g h : Graph N E} {root : NodeId} {entries : List (Entry N E)}

/-- The edges with the places of their ends among the nodes. -/
def placedEdges (g : Graph N E) : List (Nat × Nat × E) :=
  g.edges.map fun e => (g.nodeIds.idxOf e.2.source, g.nodeIds.idxOf e.2.target, e.2.value)

/-- The nodes are the origin and the entries, and the edges lead to the entries from their parents,
both in the order of the entries. -/
structure Tells (g : Graph N E) (origin : N) (entries : List (Entry N E)) : Prop where
  nodes : g.nodes.map (·.2) = origin :: entries.map Entry.value
  edges : g.placedEdges =
    (entries.zipIdx 1).map fun row => (row.1.parentPlace row.2, row.2, row.1.edge)

/-! ## Growth -/

theorem parentOf_eq (placed : List NodeId) (entry : Entry N E) :
    parentOf placed entry.parent = placed[entry.parentPlace placed.length]? := by
  unfold parentOf Entry.parentPlace
  cases entry.parent with
  | none => exact List.getLast?_eq_getElem?
  | some place => rfl

theorem known_cons {entry : Entry N E} {first : Nat} : Known (entry :: entries) first ↔
    entry.parentPlace first < first ∧ Known entries (first + 1) := by
  unfold Known
  rw [List.zipIdx_cons, List.forall_mem_cons]

theorem grow_isSome_iff (wf : g.WellFormed) :
    (grow g.nodeIds entries g).isSome ↔ Known entries g.nodeIds.length := by
  induction entries generalizing g with
  | nil => simp [grow, Known]
  | cons entry entries ih =>
    rw [known_cons]
    cases found : parentOf g.nodeIds entry.parent with
    | none =>
      have outside : ¬ entry.parentPlace g.nodeIds.length < g.nodeIds.length := by
        rwa [parentOf_eq, List.getElem?_eq_none_iff, ← Nat.not_lt] at found
      simp [grow_eq_bind, found, outside]
    | some parent =>
      have inside : entry.parentPlace g.nodeIds.length < g.nodeIds.length := by
        rw [parentOf_eq] at found
        exact (List.getElem?_eq_some_iff.mp found).1
      have live := mem_of_parentOf found
      have wf' : (g.sprout parent entry).WellFormed := wf.sprout live
      have later := ih wf'
      rw [nodeIds_sprout wf live, List.length_append, List.length_singleton] at later
      rw [grow_cons wf found live, later, and_iff_right inside]

theorem edges_sprout_eq (wf : g.WellFormed) (parent : NodeId) (entry : Entry N E) :
    ∃ id, (g.sprout parent entry).edges = g.edges ++ [(id, ⟨parent, g.bud entry, entry.edge⟩)] :=
  ⟨_, edges_link (wf.createNode entry.value) ..⟩

/-- The entries describe the edges that growing adds. -/
theorem grow_describes (wf : g.WellFormed) (grown : grow g.nodeIds entries g = some h) :
    h.WellFormed ∧ ∃ edges, h.edges = g.edges ++ edges ∧
      h.nodes = g.nodes ++ (edges.map (·.2.target)).zip (entries.map Entry.value) ∧
      edges.length = entries.length ∧ h.Describes g.nodeIds entries edges := by
  induction entries generalizing g with
  | nil =>
    rw [grow, Option.some.injEq] at grown
    subst grown
    exact ⟨wf, [], by simp, by simp, rfl, .nil⟩
  | cons entry entries ih =>
    rw [grow_eq_bind] at grown
    obtain ⟨parent, found, -⟩ := Option.bind_eq_some_iff.mp grown
    have live := mem_of_parentOf found
    have wf' : (g.sprout parent entry).WellFormed := wf.sprout live
    have placed : (g.sprout parent entry).nodeIds = g.nodeIds ++ [g.bud entry] :=
      nodeIds_sprout wf live
    rw [← grow_eq_bind, grow_cons wf found live, ← placed] at grown
    obtain ⟨hwf, edges, arrows, nodes, length, describes⟩ := ih wf' grown
    obtain ⟨id, made⟩ := edges_sprout_eq wf parent entry
    rw [made, List.append_assoc] at arrows
    rw [nodes_sprout wf, List.append_assoc] at nodes
    rw [placed] at describes
    refine ⟨hwf, (id, ⟨parent, g.bud entry, entry.edge⟩) :: edges, arrows, nodes,
      congrArg (· + 1) length, .cons ?_ ?_ ?_ rfl found describes⟩
    · simp [arrows]
    · have nodup := nodeIds_nodup wf'
      rw [placed] at nodup
      exact fun old => (List.nodup_append.mp nodup).2.2 _ old _ (List.mem_singleton_self _) rfl
    · rw [value?_eq_some_iff hwf, nodes]
      simp

/-- A graph that was grown from entries behind a root. -/
structure Grown (g : Graph N E) (root : NodeId) (origin : N) (entries : List (Entry N E)) :
    Prop where
  wellFormed : g.WellFormed
  describes : g.Describes [root] entries g.edges
  nodeIds : g.nodeIds = root :: g.edges.map (·.2.target)
  values : g.nodes.map (·.2) = origin :: entries.map Entry.value

/-- The graph of an origin alone. -/
theorem nodes_createNode_empty (origin : N) : (createNode (E := E) .empty origin).2.nodes =
    [((createNode (E := E) .empty origin).1, origin)] :=
  nodes_createNode .empty origin

theorem nodeIds_createNode_empty (origin : N) : (createNode (E := E) .empty origin).2.nodeIds =
    [(createNode (E := E) .empty origin).1] := by
  rw [nodeIds_eq (.createNode .empty origin), nodes_createNode_empty]
  rfl

theorem ofEntries?_isSome_iff {origin : N} :
    (ofEntries? origin entries).isSome ↔ Known entries 1 := by
  have wf : (createNode (E := E) .empty origin).2.WellFormed := .createNode .empty origin
  have grows := @grow_isSome_iff N E _ entries wf
  rwa [nodeIds_createNode_empty, List.length_singleton] at grows

theorem ofEntries?_grown {origin : N} (grown : ofEntries? origin entries = some g) :
    ∃ root, g.Grown root origin entries := by
  have placed := nodeIds_createNode_empty (E := E) origin
  have grown : grow (createNode (E := E) .empty origin).2.nodeIds entries
      (createNode .empty origin).2 = some g := placed ▸ grown
  obtain ⟨wf, edges, arrows, nodes, length, describes⟩ :=
    grow_describes (.createNode .empty origin) grown
  obtain rfl : g.edges = edges := arrows
  rw [nodes_createNode_empty] at nodes
  refine ⟨_, wf, placed ▸ describes, ?_, ?_⟩
  · rw [nodeIds_eq wf, nodes, List.map_append, List.map_fst_zip (by simp [length])]
    rfl
  · rw [nodes, List.map_append, List.map_snd_zip (by simp [length])]
    rfl

/-! ## Places -/

/-- The entries tell of the edges by the places of the nodes. -/
theorem Describes.placed {nodeIds before : List NodeId} {edges : List (EdgeId × Edge E)}
    (describes : g.Describes before entries edges) (nodup : nodeIds.Nodup)
    (all : nodeIds = before ++ edges.map (·.2.target)) :
    (edges.map fun e => (nodeIds.idxOf e.2.source, nodeIds.idxOf e.2.target, e.2.value)) =
      (entries.zipIdx before.length).map
        fun row => (row.1.parentPlace row.2, row.2, row.1.edge) := by
  induction describes with
  | nil => rfl
  | @cons before entry entries e edges _ _ _ payload parent _ ih =>
    have later := ih (by simpa using all)
    rw [List.length_append, List.length_singleton] at later
    rw [parentOf_eq] at parent
    have source : nodeIds[entry.parentPlace before.length]? = some e.2.source := by
      rw [all, List.getElem?_append_left (List.getElem?_eq_some_iff.mp parent).1, parent]
    have target : nodeIds[before.length]? = some e.2.target := by
      simp [all]
    have sourcePlace := (idxOf_eq_iff nodup (List.mem_of_getElem? source) source).mpr rfl
    have targetPlace := (idxOf_eq_iff nodup (List.mem_of_getElem? target) target).mpr rfl
    rw [List.map_cons, later, sourcePlace, targetPlace, payload]
    rfl

namespace Grown

variable {origin : N}

theorem tells (grown : g.Grown root origin entries) : g.Tells origin entries :=
  ⟨grown.values, grown.describes.placed (nodeIds_nodup grown.wellFormed) grown.nodeIds⟩

theorem nodeCount (grown : g.Grown root origin entries) : g.nodeCount = entries.length + 1 := by
  have length := congrArg List.length grown.values
  rwa [List.length_map, ← nodeCount_eq grown.wellFormed, List.length_cons, List.length_map]
    at length

theorem value?_root (grown : g.Grown root origin entries) : g.value? root = some origin := by
  have wf := grown.wellFormed
  have ids := grown.nodeIds
  have values := grown.values
  rw [nodeIds_eq wf] at ids
  rw [value?_eq_some_iff wf]
  cases listed : g.nodes with
  | nil => simp [listed] at ids
  | cons first nodes =>
    rw [listed, List.map_cons, List.cons.injEq] at ids values
    rw [← ids.1, ← values.1]
    exact List.mem_cons_self

/-- The origin is given the payload that it has. -/
theorem setNode_root (grown : g.Grown root origin entries) :
    (g.setNode root origin).Tells origin entries := by
  have wf := grown.wellFormed
  have nodes := nodes_setNode_self wf grown.value?_root
  have ids : (g.setNode root origin).nodeIds = g.nodeIds := by
    rw [nodeIds_eq (wf.setNode root origin), nodes, ← nodeIds_eq wf]
  obtain ⟨values, edges⟩ := grown.tells
  constructor
  · rw [nodes, values]
  · rw [placedEdges, ids, edges_setNode, ← placedEdges, edges]

theorem rooted (grown : g.Grown root origin entries) : g.Rooted root := by
  constructor
  · simp [grown.nodeIds]
  · rw [grown.nodeIds, List.erase_cons_head]

theorem reachesAll (grown : g.Grown root origin entries) : g.reachesAll root := by
  have wf := grown.wellFormed
  rw [Graph.reachesAll, beq_iff_eq, walkFrom_length_iff wf grown.rooted.live, grown.nodeIds,
    List.forall_mem_cons, List.forall_mem_map]
  refine ⟨.refl, grown.describes.follows.reached fun id start => ?_⟩
  rw [List.mem_singleton.mp start]

/-- As many edges leave the origin as entries name its place. -/
theorem outDegree_root (grown : g.Grown root origin entries) :
    g.outDegree root = (entries.zipIdx 1).countP fun row => row.1.parentPlace row.2 = 0 := by
  have wf := grown.wellFormed
  have first : g.nodeIds[0]? = some root := by simp [grown.nodeIds]
  have places : g.edges.countP (fun e => e.2.source = root) =
      g.placedEdges.countP fun arrow => arrow.1 = 0 := by
    rw [placedEdges, List.countP_map]
    refine List.countP_congr fun e inside => ?_
    simp only [Function.comp_apply, decide_eq_true_eq]
    exact (idxOf_eq_iff (nodeIds_nodup wf) (source_mem wf inside) first).symm
  rw [outDegree_eq wf, places, grown.tells.edges, List.countP_map]
  rfl

/-- The first entry hangs below the origin, so no other one may. -/
theorem outDegree_root_le_one_iff (grown : g.Grown root origin entries)
    (known : Known entries 1) :
    g.outDegree root ≤ 1 ↔ ∀ row ∈ entries.zipIdx 1, row.2 ≠ 1 → row.1.parentPlace row.2 ≠ 0 := by
  rw [grown.outDegree_root]
  cases entries with
  | nil => simp
  | cons first entries =>
    rw [known_cons] at known
    rw [List.zipIdx_cons, List.forall_mem_cons]
    have below : first.parentPlace 1 = 0 := Nat.lt_one_iff.mp known.1
    have behind : ∀ row ∈ entries.zipIdx (1 + 1), row.2 ≠ 1 :=
      fun row mem => (Nat.lt_of_succ_le (List.le_snd_of_mem_zipIdx mem)).ne'
    rw [List.countP_cons_of_pos (by simp [below]), Nat.succ_le_succ_iff]
    simp only [Nat.le_zero, List.countP_eq_zero, decide_eq_true_eq, ne_eq, not_true_eq_false,
      false_implies, true_and]
    exact forall₂_congr fun row mem => ⟨fun apart _ => apart, fun apart => apart (behind row mem)⟩

/-- What is grown has one node that nothing leads to, from which it is reached. -/
theorem anchor?_eq_some_iff (grown : g.Grown root origin entries)
    (known : Known entries 1) {id : NodeId} :
    g.anchor? .trunkTree = some id ↔ id = root ∧ Planted entries := by
  have wf := grown.wellFormed
  rw [anchor?_eq_some_iff_rooted wf]
  simp only [isAnchor, isTrunkOrigin, Bool.and_eq_true, decide_eq_true_eq]
  constructor
  · rintro ⟨rooted, ⟨thin, -⟩, -⟩
    obtain ⟨-, here⟩ := (rooted_iff wf).mp rooted
    obtain ⟨-, there⟩ := (rooted_iff wf).mp grown.rooted
    obtain rfl : id = root := Option.some.inj (here.symm.trans there)
    exact ⟨rfl, known, (grown.outDegree_root_le_one_iff known).mp thin⟩
  · rintro ⟨rfl, planted⟩
    refine ⟨grown.rooted, ⟨(grown.outDegree_root_le_one_iff known).mpr planted.trunk, ?_⟩,
      grown.reachesAll⟩
    rw [List.all_eq_true]
    intro other live
    rw [grown.rooted.inDegree wf live]
    by_cases same : other = id <;> simp [same]

theorem anchor?_eq (grown : g.Grown root origin entries)
    (known : Known entries 1) :
    g.anchor? .trunkTree = if Planted entries then some root else none := by
  split
  · next planted => exact (grown.anchor?_eq_some_iff known).mpr ⟨rfl, planted⟩
  · next branched =>
    rw [Option.eq_none_iff_forall_ne_some]
    exact fun id found => branched ((grown.anchor?_eq_some_iff known).mp found).2

end Grown

/-! ## Readers that grow a tree -/

section Read

variable {α : Type} {origin : N} {store : Graph N E → Option α} {kept : Graph N E → NodeId → α}

/-- A reader that stores trunk trees reads planted entries. -/
theorem bind_ofEntries?_eq_some_iff
    (stores : ∀ g root, g.Grown root origin entries →
      Known entries 1 → ∀ a, store g = some a ↔ Planted entries ∧ a = kept g root) (a : α) :
    (ofEntries? origin entries).bind store = some a ↔ Planted entries ∧ ∃ g root,
      g.Grown root origin entries ∧ ofEntries? origin entries = some g ∧ a = kept g root := by
  rw [Option.bind_eq_some_iff]
  constructor
  · rintro ⟨g, made, stored⟩
    obtain ⟨root, grown⟩ := ofEntries?_grown made
    have known := ofEntries?_isSome_iff.mp (Option.isSome_of_eq_some made)
    obtain ⟨planted, rfl⟩ := (stores g root grown known a).mp stored
    exact ⟨planted, g, root, grown, made, rfl⟩
  · rintro ⟨planted, g, root, grown, made, rfl⟩
    exact ⟨g, made, (stores g root grown planted.known _).mpr ⟨planted, rfl⟩⟩

theorem bind_ofEntries?_isSome_iff
    (stores : ∀ g root, g.Grown root origin entries →
      Known entries 1 → ∀ a, store g = some a ↔ Planted entries ∧ a = kept g root) :
    ((ofEntries? origin entries).bind store).isSome ↔ Planted entries := by
  rw [Option.isSome_iff_exists]
  constructor
  · rintro ⟨a, read⟩
    exact ((bind_ofEntries?_eq_some_iff stores a).mp read).1
  · intro planted
    obtain ⟨g, made⟩ := Option.isSome_iff_exists.mp (ofEntries?_isSome_iff.mpr planted.known)
    obtain ⟨root, grown⟩ := ofEntries?_grown made
    exact ⟨_, (bind_ofEntries?_eq_some_iff stores _).mpr ⟨planted, g, root, grown, made, rfl⟩⟩

end Read

end Graph

end Tangible
