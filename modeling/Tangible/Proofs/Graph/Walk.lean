import Mathlib.Data.List.Perm.Subperm
import Mathlib.Logic.Relation
import Tangible.Graph.Walk
import Tangible.Proofs.Graph.Invariant

/-!
# What a walk visits

A walk from a live origin goes along edges that leave visited nodes and arrive at new ones
(`Follows`, `walkFrom_eq`), visits no node twice, and visits exactly the nodes that the origin
leads to (`mem_walkFrom_iff`).

`Leads` is one step along an edge; a node leads to another through its reflexive transitive
closure.
-/

namespace Tangible.Graph

variable {N E : Type} {g : Graph N E}

def Leads (g : Graph N E) (a b : NodeId) : Prop :=
  ∃ e ∈ g.edges, e.2.source = a ∧ e.2.target = b

/-- The step of a walk along an edge. -/
def stepAlong (e : EdgeId × Edge E) : Step :=
  ⟨some e.2.source, some e.1, e.2.target⟩

theorem stepsFrom_eq (wf : g.WellFormed) (id : NodeId) :
    g.stepsFrom id = (g.edges.filter (·.2.source = id)).map stepAlong := by
  rw [stepsFrom, outEdges_eq wf]
  refine List.map_congr_left fun e mem => ?_
  have source : e.2.source = id := by simpa using (List.mem_filter.mp mem).2
  simp only [stepAlong, source]

theorem mem_stepsFrom (wf : g.WellFormed) {id : NodeId} {step : Step} :
    step ∈ g.stepsFrom id ↔ ∃ e ∈ g.edges, e.2.source = id ∧ step = stepAlong e := by
  rw [stepsFrom_eq wf, List.mem_map]
  constructor
  · rintro ⟨e, out, rfl⟩
    obtain ⟨inside, source⟩ := List.mem_filter.mp out
    exact ⟨e, inside, by simpa using source, rfl⟩
  · rintro ⟨e, inside, source, rfl⟩
    exact ⟨e, List.mem_filter.mpr ⟨inside, by simpa using source⟩, rfl⟩

/-- Edges in an order in which each leaves a node met before and arrives at one that was not. -/
inductive Follows (g : Graph N E) : List NodeId → List (EdgeId × Edge E) → Prop where
  | nil {before : List NodeId} : Follows g before []
  | cons {before : List NodeId} {e : EdgeId × Edge E} {rest : List (EdgeId × Edge E)} :
      e ∈ g.edges → e.2.source ∈ before → e.2.target ∉ before →
      Follows g (before ++ [e.2.target]) rest → Follows g before (e :: rest)

/-! ## Walks in progress -/

theorem walk_follows (wf : g.WellFormed) {unvisited before : List NodeId} {stack : List Step}
    (apart : ∀ id ∈ unvisited, id ∉ before) (nodup : unvisited.Nodup)
    (grounded : ∀ step ∈ stack, ∃ e ∈ g.edges, e.2.source ∈ before ∧ step = stepAlong e) :
    ∃ edges, g.walk unvisited stack = edges.map stepAlong ∧ Follows g before edges := by
  -- what waits on the stack always leaves a node that was met, whatever was met since
  fun_induction g.walk unvisited stack generalizing before with
  | case1 => exact ⟨[], rfl, .nil⟩
  | case2 unvisited step stack new ih =>
    obtain ⟨e, inside, source, rfl⟩ := grounded step (List.mem_cons_self ..)
    have apart' : ∀ id ∈ unvisited.erase e.2.target, id ∉ before ++ [e.2.target] := by
      intro id mem visited
      rw [nodup.mem_erase_iff] at mem
      rcases List.mem_append.mp visited with old | last
      · exact apart id mem.2 old
      · exact mem.1 (List.mem_singleton.mp last)
    have grounded' : ∀ step ∈ g.stepsFrom e.2.target ++ stack,
        ∃ e' ∈ g.edges, e'.2.source ∈ before ++ [e.2.target] ∧ step = stepAlong e' := by
      intro step mem
      rcases List.mem_append.mp mem with next | waiting
      · obtain ⟨e', inside', source', rfl⟩ := (mem_stepsFrom wf).mp next
        exact ⟨e', inside', by simp [source'], rfl⟩
      · obtain ⟨e', inside', source', rfl⟩ := grounded step (List.mem_cons_of_mem _ waiting)
        exact ⟨e', inside', List.mem_append_left _ source', rfl⟩
    obtain ⟨edges, walked, follows⟩ := ih apart' (nodup.erase _) grounded'
    exact ⟨e :: edges, by rw [walked]; rfl, .cons inside source (apart _ new) follows⟩
  | case3 unvisited step stack old ih =>
    exact ih apart nodup fun step mem => grounded step (List.mem_cons_of_mem _ mem)

theorem walk_subset (unvisited : List NodeId) (stack : List Step) :
    ∀ step ∈ g.walk unvisited stack, step.node ∈ unvisited := by
  fun_induction g.walk unvisited stack with
  | case1 => simp
  | case2 unvisited step stack new ih =>
    intro step' mem
    rcases List.mem_cons.mp mem with rfl | later
    · exact new
    · exact List.mem_of_mem_erase (ih step' later)
  | case3 _ _ _ _ ih => exact ih

theorem walk_nodup (unvisited : List NodeId) (stack : List Step) (nodup : unvisited.Nodup) :
    ((g.walk unvisited stack).map Step.node).Nodup := by
  fun_induction g.walk unvisited stack with
  | case1 => exact List.nodup_nil
  | case2 unvisited step stack new ih =>
    rw [List.map_cons, List.nodup_cons]
    refine ⟨fun again => ?_, ih (nodup.erase _)⟩
    obtain ⟨step', mem, same⟩ := List.mem_map.mp again
    have inside := walk_subset _ _ step' mem
    rw [same, nodup.mem_erase_iff] at inside
    exact inside.1 rfl
  | case3 _ _ _ _ ih => exact ih nodup

/-- Every node that waits on the stack is visited, and so are the nodes behind visited ones. -/
theorem walk_complete (wf : g.WellFormed) (unvisited : List NodeId) (stack : List Step) :
    (∀ step ∈ stack, step.node ∈ unvisited → step.node ∈ (g.walk unvisited stack).map Step.node) ∧
      ∀ a ∈ (g.walk unvisited stack).map Step.node, ∀ b, g.Leads a b → b ∈ unvisited →
        b ∈ (g.walk unvisited stack).map Step.node := by
  fun_induction g.walk unvisited stack with
  | case1 => simp
  | case2 unvisited step stack new ih =>
    obtain ⟨waiting, closed⟩ := ih
    rw [List.map_cons]
    constructor
    · intro step' mem inside
      by_cases same : step'.node = step.node
      · rw [same]
        exact List.mem_cons_self ..
      · refine List.mem_cons_of_mem _ (waiting step' ?_ ((List.mem_erase_of_ne same).mpr inside))
        rcases List.mem_cons.mp mem with rfl | later
        · exact absurd rfl same
        · exact List.mem_append_right _ later
    · intro a mem b leads inside
      -- the nodes behind the new one are on the stack now, those behind later ones are the rest
      by_cases same : b = step.node
      · rw [same]
        exact List.mem_cons_self ..
      · have left := (List.mem_erase_of_ne same).mpr inside
        refine List.mem_cons_of_mem _ ?_
        rcases List.mem_cons.mp mem with rfl | later
        · obtain ⟨e, edge, source, rfl⟩ := leads
          have next := (mem_stepsFrom wf).mpr ⟨e, edge, source, rfl⟩
          exact waiting (stepAlong e) (List.mem_append_left _ next) left
        · exact closed a later b leads left
  | case3 unvisited step stack old ih =>
    obtain ⟨waiting, closed⟩ := ih
    refine ⟨fun step' mem inside => ?_, closed⟩
    rcases List.mem_cons.mp mem with rfl | later
    · exact absurd inside old
    · exact waiting step' later inside

/-! ## Walks from an origin -/

theorem Follows.reached {before : List NodeId} {edges : List (EdgeId × Edge E)} {origin : NodeId}
    (follows : g.Follows before edges)
    (reached : ∀ id ∈ before, Relation.ReflTransGen g.Leads origin id) :
    ∀ e ∈ edges, Relation.ReflTransGen g.Leads origin e.2.target := by
  induction follows with
  | nil => simp
  | @cons before e rest inside source _ _ ih =>
    have here : Relation.ReflTransGen g.Leads origin e.2.target :=
      (reached _ source).tail ⟨e, inside, rfl, rfl⟩
    intro e' mem
    rcases List.mem_cons.mp mem with rfl | later
    · exact here
    · refine ih (fun id old => ?_) e' later
      rcases List.mem_append.mp old with old | last
      · exact reached id old
      · rwa [List.mem_singleton.mp last]

/-- The walk opens with its origin and goes on along edges. -/
theorem walkFrom_eq (wf : g.WellFormed) {origin : NodeId} (live : origin ∈ g.nodeIds) :
    ∃ edges, g.walkFrom origin = ⟨none, none, origin⟩ :: edges.map stepAlong ∧
      g.Follows [origin] edges := by
  have nodup := nodeIds_nodup wf
  have first : g.walkFrom origin =
      ⟨none, none, origin⟩ :: g.walk (g.nodeIds.erase origin) (g.stepsFrom origin) := by
    rw [walkFrom, walk, if_pos live, List.append_nil]
  have apart : ∀ id ∈ g.nodeIds.erase origin, id ∉ [origin] := by
    intro id mem
    simpa using (nodup.mem_erase_iff.mp mem).1
  have grounded : ∀ step ∈ g.stepsFrom origin,
      ∃ e ∈ g.edges, e.2.source ∈ [origin] ∧ step = stepAlong e := by
    intro step mem
    obtain ⟨e, inside, source, rfl⟩ := (mem_stepsFrom wf).mp mem
    exact ⟨e, inside, by simp [source], rfl⟩
  obtain ⟨edges, walked, follows⟩ := walk_follows wf apart (nodup.erase _) grounded
  exact ⟨edges, by rw [first, walked], follows⟩

theorem walkFrom_nodup (wf : g.WellFormed) (origin : NodeId) :
    ((g.walkFrom origin).map Step.node).Nodup :=
  walk_nodup _ _ (nodeIds_nodup wf)

/-- A walk visits the nodes that its origin leads to, and no others. -/
theorem mem_walkFrom_iff (wf : g.WellFormed) {origin : NodeId} (live : origin ∈ g.nodeIds)
    (id : NodeId) :
    id ∈ (g.walkFrom origin).map Step.node ↔ Relation.ReflTransGen g.Leads origin id := by
  constructor
  · intro visited
    obtain ⟨edges, walked, follows⟩ := walkFrom_eq wf live
    rw [walked, List.map_cons, List.map_map, List.mem_cons, List.mem_map] at visited
    rcases visited with rfl | ⟨e, mem, rfl⟩
    · exact .refl
    · refine follows.reached (fun id start => ?_) e mem
      rw [List.mem_singleton.mp start]
  · intro reached
    obtain ⟨waiting, closed⟩ := walk_complete wf g.nodeIds [⟨none, none, origin⟩]
    induction reached with
    | refl => exact waiting _ (List.mem_singleton_self _) live
    | tail _ leads ih =>
      refine closed _ ih _ leads ?_
      obtain ⟨e, inside, _, rfl⟩ := leads
      exact target_mem wf inside

/-- A walk is complete exactly when its origin leads to every node. -/
theorem walkFrom_length_iff (wf : g.WellFormed) {origin : NodeId} (live : origin ∈ g.nodeIds) :
    (g.walkFrom origin).length = g.nodeCount ↔
      ∀ id ∈ g.nodeIds, Relation.ReflTransGen g.Leads origin id := by
  have inside : (g.walkFrom origin).map Step.node ⊆ g.nodeIds := by
    intro id mem
    obtain ⟨step, walked, rfl⟩ := List.mem_map.mp mem
    exact walk_subset _ _ step walked
  have count : g.nodeCount = g.nodeIds.length := by
    rw [nodeCount_eq wf, nodeIds_eq wf, List.length_map]
  have sub := List.subperm_of_subset (walkFrom_nodup wf origin) inside
  rw [count, ← List.length_map Step.node]
  constructor
  · intro complete id mem
    rw [← mem_walkFrom_iff wf live]
    exact (sub.perm_of_length_le (Nat.le_of_eq complete.symm)).mem_iff.mpr mem
  · intro all
    refine Nat.le_antisymm sub.length_le ?_
    refine (List.subperm_of_subset (nodeIds_nodup wf) fun id mem => ?_).length_le
    exact (mem_walkFrom_iff wf live id).mpr (all id mem)

end Tangible.Graph
