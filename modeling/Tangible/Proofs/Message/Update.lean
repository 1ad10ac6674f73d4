import Tangible.Message.Update
import Tangible.Proofs.Message.Reencoding

/-!
# Messages with graphs in step

A message with a graph keeps its anchor and its graph in step through all updates
(`graphs_in_step`). The graphs that it is given may be any graphs. An update that refuses its graph
does so before the first assignment, so the message is as it was (`Update.Computes.unchanged`).
-/

namespace Tangible

open Osc (Arg)

namespace Update

variable {S : Type}

/-- What every update preserves holds behind all of them. -/
theorem onAll_induction {p : S → Prop} {us : List (Update S Unit)} {s : S} (start : p s)
    (step : ∀ u ∈ us, ∀ s, p s → p (u.on s).2) : p (onAll us s) := by
  induction us generalizing s with
  | nil => exact start
  | cons u us ih =>
    rw [List.forall_mem_cons] at step
    exact ih (step.1 s start) step.2

/-- The assignments come to what `f` computes at once, and to nothing where `f` refuses. -/
def Computes (u : Update S Unit) (f : S → Except Topology S) : Prop :=
  ∀ s, u.on s =
    match f s with
    | .ok s' => (.ok (), s')
    | .error e => (.error e, s)

namespace Computes

variable {u : Update S Unit} {f : S → Except Topology S} {s : S}

theorem refuses_iff (computes : u.Computes f) {e : Topology} :
    (u.on s).1 = .error e ↔ f s = .error e := by
  rw [computes s]
  cases f s with
  | ok s' => simp
  | error e' => simp

theorem unchanged (computes : u.Computes f) {e : Topology} (refused : (u.on s).1 = .error e) :
    (u.on s).2 = s := by
  rw [computes.refuses_iff] at refused
  rw [computes s, refused]

theorem preserves (computes : u.Computes f) {p : S → Prop} (before : p s)
    (taken : ∀ s', f s = .ok s' → p s') : p (u.on s).2 := by
  rw [computes s]
  cases result : f s with
  | ok s' => exact taken s' result
  | error e => exact before

end Computes

end Update

/-! ## Links -/

namespace Links

variable {shape : Topology} {l : Links shape}

theorem setGraph_computes (graph : LinkGraph) :
    (setGraph graph : Update (Links shape) Unit).Computes (·.withGraph graph) := by
  intro l
  unfold setGraph withGraph
  split
  · rfl
  · cases graph.anchor? shape with
    | none => rfl
    | some anchor => rfl

theorem withGraph_eq_error_iff {graph : LinkGraph} (wf : graph.WellFormed) {e : Topology} :
    l.withGraph graph = .error e ↔
      shape = e ∧ ¬ graph.isEmpty ∧ ¬ (graph.nodeCount = 1 ∧ graph.edgeCount = 0) ∧
        graph.anchor? shape = none := by
  have little : graph.edgeCount = 0 ∧ graph.nodeCount ≤ 1 ↔
      graph.isEmpty ∨ graph.nodeCount = 1 ∧ graph.edgeCount = 0 := by
    have none : graph.isEmpty → graph.edgeCount = 0 := by
      intro none
      rw [Graph.edgeCount_eq wf, Graph.edges_eq_nil_of_isEmpty wf none, List.length_nil]
    rw [Graph.isEmpty, beq_iff_eq] at none ⊢
    omega
  unfold withGraph
  simp only [little]
  by_cases next : graph.isEmpty ∨ graph.nodeCount = 1 ∧ graph.edgeCount = 0
  · rw [if_pos next]
    simp only [reduceCtorEq, false_iff]
    rintro ⟨_, nonempty, notLone, _⟩
    exact next.elim nonempty notLone
  · rw [if_neg next]
    rw [not_or] at next
    cases graph.anchor? shape with
    | none => simp [next.1, next.2]
    | some anchor => simp

/-- The values that links begin with. -/
inductive Initial : Links shape → Prop where
  | blank (sessionId : UInt32) (physical : Bool) : Initial { sessionId, physical }
  | ofArgs {args : List Arg} {l : Links shape} : ofArgs? args = some l → Initial l

theorem Initial.reachable (initial : l.Initial) : l.Reachable := by
  cases initial with
  | blank sessionId physical => exact .blank sessionId physical
  | ofArgs read => exact .ofArgs read

theorem Reachable.update (reachable : l.Reachable) {c : Call}
    (graph : ∀ graph, c = .setGraph graph → graph.Reachable) : (c.update.on l).2.Reachable := by
  cases c with
  | setSessionId id => exact reachable.withSessionId id
  | setPhysical physical => exact reachable.withPhysical physical
  | clearGraph => exact reachable.clearGraph
  | setGraph given =>
    refine (setGraph_computes given).preserves reachable fun l' taken => ?_
    exact reachable.withGraph (graph given rfl) taken

theorem Reachable.after (reachable : l.Reachable) {calls : List Call}
    (graphs : ∀ graph, .setGraph graph ∈ calls → graph.Reachable) : (l.after calls).Reachable := by
  refine Update.onAll_induction reachable fun u mem l reachable => ?_
  obtain ⟨c, called, rfl⟩ := List.mem_map.mp mem
  exact reachable.update fun graph same => graphs graph (same ▸ called)

/-- The anchor, the graph and the session id fit together. -/
structure InStep (l : Links shape) : Prop where
  unanchored : l.anchor = none ↔ l.graph.isEmpty
  anchored : ∀ anchor, l.anchor = some anchor →
    l.graph.anchor? shape = some anchor ∧ l.graph.value? anchor = some l.sessionId ∧
      1 ≤ l.graph.edgeCount

theorem Valid.inStep (valid : l.Valid) : l.InStep := by
  refine ⟨⟨valid.unanchored, fun none => ?_⟩, fun anchor anchored => ?_⟩
  · cases anchored : l.anchor with
    | none => rfl
    | some anchor =>
      have large := (valid.anchored anchor anchored).2.2
      rw [Graph.isEmpty, beq_iff_eq] at none
      omega
  · obtain ⟨found, stamped, large⟩ := valid.anchored anchor anchored
    have size := (Graph.anchor?_eq_some_iff.mp found).1
    simp only [Graph.isTreeSized, Bool.and_eq_true, beq_iff_eq] at size
    exact ⟨found, stamped, by omega⟩

end Links

/-! ## Skeletons -/

namespace Skeleton

variable {P : Type} {s : Skeleton P}

/-- The motions of joints are the transforms of skeletons. -/
theorem transform2?_eq (s : Skeleton Point2) (t : Transform) :
    s.transform2? t = (Movable.motion? t).map s.mapJoints := rfl

theorem transform3_eq (s : Skeleton Point3) (t : Transform) :
    some (s.transform3 t) = (Movable.motion? t).map s.mapJoints := rfl

theorem setGraph_computes (graph : Graph P Unit) :
    (setGraph graph).Computes (·.withGraph graph) := by
  intro s
  unfold setGraph withGraph
  split
  · rfl
  · cases graph.anchor? .trunkTree with
    | none => rfl
    | some origin => rfl

theorem withGraph_eq_error_iff {graph : Graph P Unit} {e : Topology} :
    s.withGraph graph = .error e ↔
      .trunkTree = e ∧ ¬ graph.isEmpty ∧ graph.anchor? .trunkTree = none := by
  unfold withGraph
  by_cases next : graph.isEmpty
  · simp [next]
  · rw [if_neg next]
    cases graph.anchor? .trunkTree with
    | none => simp [next]
    | some origin => simp

/-- The values that skeletons begin with. -/
inductive Initial [Joint P] : Skeleton P → Prop where
  | blank (sessionId : UInt32) : Initial { sessionId }
  | ofArgs {args : List Arg} {s : Skeleton P} : ofArgs? args = some s → Initial s

variable [Joint P] [Movable P]

omit [Movable P] in
theorem Initial.reachable (initial : s.Initial) : s.Reachable := by
  cases initial with
  | blank sessionId => exact .blank sessionId
  | ofArgs read => exact .ofArgs read

theorem Reachable.update (reachable : s.Reachable) {c : Call P}
    (graph : ∀ graph, c = .setGraph graph → graph.Reachable) : (c.update.on s).2.Reachable := by
  cases c with
  | setSessionId id => exact reachable.withSession id
  | clearGraph => exact reachable.clearGraph
  | setGraph given =>
    refine (setGraph_computes given).preserves reachable fun s' taken => ?_
    exact reachable.withGraph (graph given rfl) taken
  | transform t =>
    cases applies : (Movable.motion? t : Option (P → P)) with
    | none =>
      simp only [Call.update, applies]
      exact reachable
    | some motion =>
      simp only [Call.update, applies]
      exact reachable.mapJoints motion

theorem Reachable.after (reachable : s.Reachable) {calls : List (Call P)}
    (graphs : ∀ graph, .setGraph graph ∈ calls → graph.Reachable) : (s.after calls).Reachable := by
  refine Update.onAll_induction reachable fun u mem s reachable => ?_
  obtain ⟨c, called, rfl⟩ := List.mem_map.mp mem
  exact reachable.update fun graph same => graphs graph (same ▸ called)

omit [Joint P] [Movable P] in
/-- The origin and the graph fit together. -/
structure InStep (s : Skeleton P) : Prop where
  unanchored : s.origin = none ↔ s.graph.isEmpty
  anchored : ∀ origin, s.origin = some origin → s.graph.anchor? .trunkTree = some origin

omit [Joint P] [Movable P] in
theorem Valid.inStep (valid : s.Valid) : s.InStep := by
  refine ⟨⟨valid.shaped, fun none => ?_⟩, fun origin anchored => ?_⟩
  · rw [valid.origin, anchor?_of_isEmpty none]
  · rw [← valid.origin, anchored]

end Skeleton

/-- The updates of links and of skeletons keep the anchor in step with the graph. A setter refuses
exactly the graphs that are neither empty nor of its shape, where a node alone counts as empty for
links, and a refusal leaves no trace. -/
theorem graphs_in_step :
    (∀ (shape : Topology) (l : Links shape) (calls : List Links.Call), l.Initial →
      (∀ graph, .setGraph graph ∈ calls → graph.Reachable) →
        (l.after calls).InStep ∧
        ∀ graph : LinkGraph, graph.Reachable → ∀ e,
          (((Links.setGraph graph).on (l.after calls)).1 = .error e ↔
            shape = e ∧ ¬ graph.isEmpty ∧ ¬ (graph.nodeCount = 1 ∧ graph.edgeCount = 0) ∧
              graph.anchor? shape = none) ∧
          (((Links.setGraph graph).on (l.after calls)).1 = .error e →
            ((Links.setGraph graph).on (l.after calls)).2 = l.after calls)) ∧
    (∀ (P : Type) [Joint P] [Movable P] (s : Skeleton P) (calls : List (Skeleton.Call P)),
      s.Initial → (∀ graph, .setGraph graph ∈ calls → graph.Reachable) →
        (s.after calls).InStep ∧
        ∀ (graph : Graph P Unit) (e),
          (((Skeleton.setGraph graph).on (s.after calls)).1 = .error e ↔
            .trunkTree = e ∧ ¬ graph.isEmpty ∧ graph.anchor? .trunkTree = none) ∧
          (((Skeleton.setGraph graph).on (s.after calls)).1 = .error e →
            ((Skeleton.setGraph graph).on (s.after calls)).2 = s.after calls)) := by
  constructor
  · intro shape l calls initial graphs
    refine ⟨(initial.reachable.after graphs).valid.inStep, fun graph made e => ?_⟩
    have computes : (Links.setGraph graph : Update (Links shape) Unit).Computes
        (·.withGraph graph) :=
      Links.setGraph_computes graph
    exact ⟨computes.refuses_iff.trans (Links.withGraph_eq_error_iff made.wellFormed),
      computes.unchanged⟩
  · intro P _ _ s calls initial graphs
    refine ⟨(initial.reachable.after graphs).valid.inStep, fun graph e => ?_⟩
    have computes := Skeleton.setGraph_computes graph
    exact ⟨computes.refuses_iff.trans Skeleton.withGraph_eq_error_iff, computes.unchanged⟩

/-- A tree is taken, its origin takes another session id, and nodes without links are refused. A
skeleton of one joint is moved and does not take two joints that nothing connects. -/
theorem graphs_in_step_sample :
    let calls : List Links.Call :=
      [.setGraph (Links.regrownTree?.getD .empty), .setSessionId 6, .setGraph Links.regrownNodes]
    let l : Links .trunkTree := Links.after { sessionId := 5 } calls
    let joint : Graph Point2 Unit := (Graph.empty.createNode ⟨0, 0⟩).2
    let pair : Graph Point2 Unit := (joint.createNode ⟨1, 1⟩).2
    let s : Skeleton Point2 := Skeleton.after {} [.setGraph joint, .transform (.moveX 1)]
    (l.InStep ∧ l.anchor = some ⟨⟨0, 0⟩⟩ ∧ l.graph.value? ⟨⟨0, 0⟩⟩ = some 6 ∧
      ((Links.setGraph Links.regrownNodes).on l).1 = .error .trunkTree) ∧
    s.InStep ∧ s.origin = some ⟨⟨0, 0⟩⟩ ∧
      ((Skeleton.setGraph pair).on s).1 = .error .trunkTree := by
  intro calls l joint pair s
  have linkGraphs : ∀ graph, .setGraph graph ∈ calls → graph.Reachable := by
    intro graph mem
    simp only [calls, List.mem_cons, Links.Call.setGraph.injEq, reduceCtorEq, List.not_mem_nil,
      or_false, false_or] at mem
    rcases mem with rfl | rfl
    · exact Links.regrownTree_reachable
    · exact Links.regrownNodes_reachable
  have jointGraphs : ∀ graph : Graph Point2 Unit,
      .setGraph graph ∈ [Skeleton.Call.setGraph joint, .transform (.moveX 1)] →
        graph.Reachable := by
    intro graph mem
    simp only [List.mem_cons, Skeleton.Call.setGraph.injEq, reduceCtorEq, List.not_mem_nil,
      or_false] at mem
    rw [mem]
    exact .createNode _ .empty
  have links := graphs_in_step.1 .trunkTree { sessionId := 5 } calls (.blank 5 false) linkGraphs
  have skeletons := graphs_in_step.2 Point2 {} _ (.blank 0) jointGraphs
  have foreign := (links.2 Links.regrownNodes Links.regrownNodes_reachable .trunkTree).1
  have apart := (skeletons.2 pair .trunkTree).1
  refine ⟨⟨links.1, by cbv, by cbv, foreign.mpr ?_⟩, skeletons.1, by cbv, apart.mpr ?_⟩
  · exact ⟨rfl, by decide, by decide, by cbv⟩
  · exact ⟨rfl, by decide, by cbv⟩

end Tangible
