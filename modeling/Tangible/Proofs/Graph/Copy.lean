import Tangible.Graph.Layout
import Tangible.Proofs.Graph.Isomorphism
import Tangible.Proofs.Lists

/-!
# Copies of graphs

A copy is a renamed graph in which the edges that leave a node keep their order (`Copies`). A walk
goes through a copy as it goes through the graph (`Copies.walk`), so the entries that describe them
are the same (`Copies.entriesFrom`).

A walk takes the edges that leave a node in the order of their creation (`walk_sublist`). Where it
takes all edges, their order at every node is therefore not lost (`walkFrom_ordered`).
-/

namespace Tangible.Graph

variable {N E : Type} {g h : Graph N E} {f : NodeId → NodeId}

/-! ## The order of the edges of a walk -/

/-- The steps that leave a node are taken in the order in which they were put on the stack. -/
theorem walk_sublist (wf : g.WellFormed) {unvisited : List NodeId} {stack : List Step}
    (nodup : unvisited.Nodup) (met : ∀ step ∈ stack, ∀ id ∈ unvisited, step.parent ≠ some id)
    (id : NodeId) :
    ((g.walk unvisited stack).filter (·.parent = some id)).Sublist
      (if id ∈ unvisited then g.stepsFrom id else stack.filter (·.parent = some id)) := by
  have parents {n : NodeId} : ∀ step ∈ g.stepsFrom n, step.parent = some n := by
    intro step mem
    obtain ⟨e, _, rfl, rfl⟩ := (mem_stepsFrom wf).mp mem
    rfl
  fun_induction g.walk unvisited stack with
  | case1 => simp
  | case2 unvisited step stack new ih =>
    have met' : ∀ s ∈ g.stepsFrom step.node ++ stack, ∀ id ∈ unvisited.erase step.node,
        s.parent ≠ some id := by
      intro s mem id left
      rw [nodup.mem_erase_iff] at left
      rcases List.mem_append.mp mem with next | waiting
      · rw [parents s next]
        exact fun same => left.1 (Option.some.inj same).symm
      · exact met s (List.mem_cons_of_mem _ waiting) id left.2
    have later := ih (nodup.erase _) met'
    have first : ∀ id ∈ unvisited, step.parent ≠ some id := met step (List.mem_cons_self ..)
    have behind : ∀ id ∈ unvisited, stack.filter (·.parent = some id) = [] := by
      intro id left
      rw [List.filter_eq_nil_iff]
      intro s mem
      simpa using met s (List.mem_cons_of_mem _ mem) id left
    simp only [nodup.mem_erase_iff] at later
    by_cases here : id = step.node
    -- the steps behind the visited node are all on the stack now, and no others leave it
    · subst here
      have all : (g.stepsFrom step.node).filter (·.parent = some step.node) =
          g.stepsFrom step.node := by
        rw [List.filter_eq_self]
        exact fun s mem => by simpa using parents s mem
      rw [if_neg (by simp), List.filter_append, all, behind _ new, List.append_nil] at later
      rw [if_pos new, List.filter_cons_of_neg (by simpa using first _ new)]
      exact later
    · have none : (g.stepsFrom step.node).filter (·.parent = some id) = [] := by
        rw [List.filter_eq_nil_iff]
        intro s mem
        simpa [parents s mem] using Ne.symm here
      simp only [Ne, here, not_false_eq_true, true_and, List.filter_append, none,
        List.nil_append] at later
      split
      · next left =>
        rw [if_pos left] at later
        rwa [List.filter_cons_of_neg (by simpa using first _ left)]
      · next left =>
        rw [if_neg left] at later
        rw [List.filter_cons, List.filter_cons]
        split
        · exact later.cons_cons step
        · exact later
  | case3 unvisited step stack old ih =>
    refine (ih nodup fun s mem => met s (List.mem_cons_of_mem _ mem)).trans ?_
    split
    · exact .refl _
    · exact (List.sublist_cons_self step stack).filter _

/-- The edge of a step. -/
def edgeOf (g : Graph N E) (step : Step) : Option (EdgeId × Edge E) :=
  step.edge.bind fun id => (g.edge? id).map (id, ·)

theorem filterMap_edgeOf (wf : g.WellFormed) {edges : List (EdgeId × Edge E)}
    (inside : edges ⊆ g.edges) : (edges.map stepAlong).filterMap g.edgeOf = edges := by
  rw [List.filterMap_map]
  refine (List.filterMap_congr fun e mem => ?_).trans List.filterMap_some
  have found : g.edge? e.1 = some e.2 := (edge?_eq_some_iff wf).mpr (inside mem)
  simp [edgeOf, stepAlong, found]

/-- A walk that takes all edges takes those that leave a node in the order of their creation. -/
theorem walkFrom_ordered (wf : g.WellFormed) {origin : NodeId} {edges : List (EdgeId × Edge E)}
    (walked : g.walkFrom origin = ⟨none, none, origin⟩ :: edges.map stepAlong)
    (all : edges.Perm g.edges) (id : NodeId) :
    edges.filter (·.2.source = id) = g.edges.filter (·.2.source = id) := by
  have count := (all.filter (·.2.source = id)).length_eq
  by_cases live : id ∈ g.nodeIds
  · have outside : ∀ step ∈ [Step.mk none none origin], ∀ id ∈ g.nodeIds,
        step.parent ≠ some id := by
      simp
    have taken := walk_sublist wf (nodeIds_nodup wf) outside id
    have steps : (edges.map stepAlong).filter (·.parent = some id) =
        (edges.filter (·.2.source = id)).map stepAlong := by
      rw [List.filter_map]
      congr 1
      refine List.filter_congr fun e _ => ?_
      simp [stepAlong]
    rw [if_pos live, stepsFrom_eq wf, ← walkFrom, walked, List.filter_cons_of_neg (by simp),
      steps] at taken
    have ordered := taken.filterMap g.edgeOf
    rw [filterMap_edgeOf wf fun e mem => all.subset (List.mem_filter.mp mem).1,
      filterMap_edgeOf wf fun e mem => (List.mem_filter.mp mem).1] at ordered
    exact ordered.eq_of_length count
  · have none : g.edges.filter (·.2.source = id) = [] := by
      rw [List.filter_eq_nil_iff]
      intro e mem
      have source := source_mem wf mem
      simp only [decide_eq_true_eq]
      rintro rfl
      exact live source
    rw [none, List.length_nil, List.length_eq_zero_iff] at count
    rw [none, count]

/-! ## Copies -/

/-- The nodes and the edges under new handles, with the edges that leave a node in their order. -/
structure Copies (g h : Graph N E) (f : NodeId → NodeId) : Prop extends Renames g h f where
  ordered : ∀ id ∈ g.nodeIds, (h.outEdges (f id)).map (·.2) =
    (g.outEdges id).map fun e => Edge.mk (f e.2.source) (f e.2.target) e.2.value

/-- Graphs without nodes are copies of one another. -/
theorem copies_of_isEmpty (wfg : g.WellFormed) (wfh : h.WellFormed) (noneg : g.isEmpty)
    (noneh : h.isEmpty) : g.Copies h f := by
  have blank {k : Graph N E} (wf : k.WellFormed) (none : k.isEmpty) : k.nodes = [] := by
    rwa [isEmpty, beq_iff_eq, nodeCount_eq wf, List.length_eq_zero_iff] at none
  refine ⟨⟨?_, ?_⟩, fun id live => ?_⟩
  · rw [blank wfg noneg, blank wfh noneh]
    exact .nil
  · rw [edges_eq_nil_of_isEmpty wfg noneg, edges_eq_nil_of_isEmpty wfh noneh]
    exact .nil
  · rw [nodeIds_eq wfg, blank wfg noneg] at live
    simp at live

/-- The step of a copy that goes as a step of the graph goes. -/
structure CopiesStep (g h : Graph N E) (f : NodeId → NodeId) (step step' : Step) : Prop where
  live : step.node ∈ g.nodeIds
  node : step'.node = f step.node
  parentLive : ∀ id ∈ step.parent, id ∈ g.nodeIds
  parent : step'.parent = step.parent.map f
  payload : (step'.edge.bind h.edge?).map Edge.value = (step.edge.bind g.edge?).map Edge.value

namespace Copies

theorem stepsFrom (copies : g.Copies h f) (wfg : g.WellFormed) (wfh : h.WellFormed) {id : NodeId}
    (live : id ∈ g.nodeIds) :
    List.Forall₂ (g.CopiesStep h f) (g.stepsFrom id) (h.stepsFrom (f id)) := by
  have pairs : List.Forall₂ (fun e e' => Edge.mk (f e.2.source) (f e.2.target) e.2.value = e'.2)
      (g.outEdges id) (h.outEdges (f id)) := by
    have same := copies.ordered id live
    rw [← List.forall₂_eq_eq_eq, List.forall₂_map_left_iff, List.forall₂_map_right_iff] at same
    exact same.flip.imp fun _ _ => Eq.symm
  have inside : ∀ e ∈ g.outEdges id, e ∈ g.edges := by
    rw [outEdges_eq wfg]
    exact fun e mem => (List.mem_filter.mp mem).1
  have inside' : ∀ e ∈ h.outEdges (f id), e ∈ h.edges := by
    rw [outEdges_eq wfh]
    exact fun e mem => (List.mem_filter.mp mem).1
  rw [Graph.stepsFrom, Graph.stepsFrom, List.forall₂_map_left_iff, List.forall₂_map_right_iff]
  generalize g.outEdges id = out at pairs inside
  generalize h.outEdges (f id) = out' at pairs inside'
  induction pairs with
  | nil => exact .nil
  | @cons e e' _ _ same _ ih =>
    rw [List.forall_mem_cons] at inside inside'
    refine .cons ⟨target_mem wfg inside.1, ?_, by simpa using live, rfl, ?_⟩
      (ih inside.2 inside'.2)
    · exact congrArg Edge.target same.symm
    · have found : g.edge? e.1 = some e.2 := (edge?_eq_some_iff wfg).mpr inside.1
      have found' : h.edge? e'.1 = some e'.2 := (edge?_eq_some_iff wfh).mpr inside'.1
      simp [found, found', ← same]

/-- Steps that correspond are taken at the same time. -/
theorem walk (copies : g.Copies h f) (wfg : g.WellFormed) (wfh : h.WellFormed)
    {unvisited unvisited' : List NodeId} {stack stack' : List Step}
    (steps : List.Forall₂ (g.CopiesStep h f) stack stack') (nodup : unvisited.Nodup)
    (nodup' : unvisited'.Nodup) (left : ∀ id ∈ g.nodeIds, f id ∈ unvisited' ↔ id ∈ unvisited) :
    List.Forall₂ (g.CopiesStep h f) (g.walk unvisited stack) (h.walk unvisited' stack') := by
  have both := copies.toRenames.matches wfg wfh
  fun_induction g.walk unvisited stack generalizing unvisited' stack' with
  | case1 =>
    obtain rfl := List.forall₂_nil_left_iff.mp steps
    rw [Graph.walk]
    exact .nil
  | case2 unvisited step stack new ih =>
    obtain ⟨step', stack', first, rest, rfl⟩ := List.forall₂_cons_left_iff.mp steps
    have new' : step'.node ∈ unvisited' := by
      rw [first.node]
      exact (left _ first.live).mpr new
    rw [Graph.walk, if_pos new']
    refine .cons first (ih ?_ (nodup.erase _) (nodup'.erase _) ?_)
    · rw [first.node]
      exact List.rel_append (copies.stepsFrom wfg wfh first.live) rest
    · intro id live
      rw [nodup.mem_erase_iff, nodup'.mem_erase_iff, left id live, first.node, Ne, Ne,
        both.injective wfh live first.live]
  | case3 unvisited step stack old ih =>
    obtain ⟨step', stack', first, rest, rfl⟩ := List.forall₂_cons_left_iff.mp steps
    have old' : step'.node ∉ unvisited' := by
      rw [first.node]
      exact fun inside => old ((left _ first.live).mp inside)
    rw [Graph.walk, if_neg old']
    exact ih rest nodup nodup' left

theorem walkFrom (copies : g.Copies h f) (wfg : g.WellFormed) (wfh : h.WellFormed)
    {origin : NodeId} (live : origin ∈ g.nodeIds) :
    List.Forall₂ (g.CopiesStep h f) (g.walkFrom origin) (h.walkFrom (f origin)) := by
  have both := copies.toRenames.matches wfg wfh
  refine copies.walk wfg wfh (.cons ⟨live, rfl, by simp, rfl, rfl⟩ .nil) (nodeIds_nodup wfg)
    (nodeIds_nodup wfh) fun id live => ?_
  rw [← both.nodeIds.mem_iff]
  constructor
  · intro mem
    obtain ⟨id', live', same⟩ := List.mem_map.mp mem
    rwa [← (both.injective wfh live' live).mp same]
  · exact List.mem_map_of_mem

/-- A copy stays one when a node is given the payload that it has. -/
theorem setNode_self (copies : g.Copies h f) (wf : h.WellFormed) {id : NodeId} {value : N}
    (here : h.value? id = some value) : g.Copies (h.setNode id value) f := by
  refine ⟨⟨?_, copies.edges⟩, fun origin live => ?_⟩
  · rw [nodes_setNode_self wf here]
    exact copies.nodes
  · rw [outEdges_eq (wf.setNode id value), edges_setNode, ← outEdges_eq wf]
    exact copies.ordered origin live

/-! ## The entries of copies -/

theorem jump (copies : g.Copies h f) (wfg : g.WellFormed) (wfh : h.WellFormed)
    {before : List NodeId} (lives : ∀ id ∈ before, id ∈ g.nodeIds) {step step' : Step}
    (same : g.CopiesStep h f step step') :
    Graph.jump (before.map f) step' = Graph.jump before step := by
  have both := copies.toRenames.matches wfg wfh
  rw [Graph.jump, Graph.jump, same.parent, List.getLast?_map]
  cases hparent : step.parent with
  | none => rfl
  | some parent =>
    cases hlast : before.getLast? with
    | none => rfl
    | some last =>
      have parentLive := same.parentLive parent hparent
      have place : (before.map f).idxOf (f parent) = before.idxOf parent :=
        idxOf_map fun other mem => both.injective wfh (lives other mem) parentLive
      simp only [Option.map_some, place,
        both.injective wfh parentLive (lives last (List.mem_of_getLast? hlast))]

theorem entriesOf (copies : g.Copies h f) (wfg : g.WellFormed) (wfh : h.WellFormed)
    {before : List NodeId} (lives : ∀ id ∈ before, id ∈ g.nodeIds) {steps steps' : List Step}
    (same : List.Forall₂ (g.CopiesStep h f) steps steps') :
    h.entriesOf (before.map f) steps' = g.entriesOf before steps := by
  induction same generalizing before with
  | nil => rfl
  | @cons step step' _ _ first _ ih =>
    have lives' : ∀ id ∈ before ++ [step.node], id ∈ g.nodeIds := by
      simpa [or_imp, forall_and, first.live] using lives
    have later := ih lives'
    rw [List.map_append, List.map_singleton, ← first.node] at later
    obtain ⟨value, here⟩ := (mem_nodeIds_iff_value? wfg).mp first.live
    have here' := copies.toRenames.value? wfg wfh here
    rw [← first.node] at here'
    simp only [Graph.entriesOf, here, here', later, copies.jump wfg wfh lives first, first.payload]

/-- A copy is written as the graph is. -/
theorem entriesFrom (copies : g.Copies h f) (wfg : g.WellFormed) (wfh : h.WellFormed)
    {origin : NodeId} (live : origin ∈ g.nodeIds) :
    h.entriesFrom (f origin) = g.entriesFrom origin :=
  copies.entriesOf wfg wfh (List.forall_mem_nil _) (copies.walkFrom wfg wfh live)

end Copies

end Tangible.Graph
