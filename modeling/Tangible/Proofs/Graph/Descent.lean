import Mathlib
import Tangible.Proofs.Graph.Change
import Tangible.Proofs.Graph.Walk

/-!
# Walks by recursion

A depth-first walk has two other forms. The recursive walk visits a node and then goes along its
outgoing edges, each time into the target unless it was visited (`Descends`). The loop with a stack
puts the steps from a visited node on top and drops a step to a node that was visited since
(`turn`).

Both keep the nodes that they visited, `walk` keeps the others (`unvisited`). Steps on top of a
stack are taken as the recursive walk takes them before the stack below is looked at, whatever was
visited in the meantime (`Descends.walk_append`); every turn uses up a step, and every edge is put
on the stack once at most (`iterate_turn`). So all three are the same walk (`walkFrom_descends`).
-/

namespace Tangible.Graph

variable {N E : Type} {g : Graph N E} {visited visited' : List NodeId} {steps taken : List Step}

/-! ## The nodes that are left -/

def unvisited (g : Graph N E) (visited : List NodeId) : List NodeId :=
  g.nodeIds.filter (· ∉ visited)

theorem unvisited_nil (g : Graph N E) : g.unvisited [] = g.nodeIds := by
  simp [unvisited]

theorem mem_unvisited {id : NodeId} : id ∈ g.unvisited visited ↔ id ∈ g.nodeIds ∧ id ∉ visited := by
  simp [unvisited]

theorem unvisited_cons (wf : g.WellFormed) (id : NodeId) (visited : List NodeId) :
    g.unvisited (id :: visited) = (g.unvisited visited).erase id := by
  rw [unvisited, unvisited, ((nodeIds_nodup wf).filter _).erase_eq_filter, List.filter_filter]
  refine List.filter_congr fun other _ => ?_
  by_cases same : other = id <;> simp [same]

theorem stepsFrom_live (wf : g.WellFormed) (id : NodeId) :
    ∀ step ∈ g.stepsFrom id, step.node ∈ g.nodeIds := by
  intro step mem
  obtain ⟨e, inside, -, rfl⟩ := (mem_stepsFrom wf).mp mem
  exact target_mem wf inside

/-! ## The recursive walk -/

/-- `Descends visited steps taken visited'`: the recursive walk goes along `steps` one after the
other. It takes the step to a node that was not visited and goes along the edges that leave the
node before it comes to the next step. -/
inductive Descends (g : Graph N E) :
    (visited : List NodeId) → (steps taken : List Step) → (visited' : List NodeId) → Prop where
  | nil (visited : List NodeId) : Descends g visited [] [] visited
  | pass {visited visited' : List NodeId} {step : Step} {steps taken : List Step} :
      step.node ∈ visited → Descends g visited steps taken visited' →
      Descends g visited (step :: steps) taken visited'
  | visit {visited between visited' : List NodeId} {step : Step} {steps below behind : List Step} :
      step.node ∉ visited →
      Descends g (step.node :: visited) (g.stepsFrom step.node) below between →
      Descends g between steps behind visited' →
      Descends g visited (step :: steps) (step :: (below ++ behind)) visited'

/-- The stack below waits until the recursive walk is through. -/
theorem Descends.walk_append (descends : g.Descends visited steps taken visited')
    (wf : g.WellFormed) (live : ∀ step ∈ steps, step.node ∈ g.nodeIds) (stack : List Step) :
    g.walk (g.unvisited visited) (steps ++ stack) =
      taken ++ g.walk (g.unvisited visited') stack := by
  induction descends generalizing stack with
  | nil => rfl
  | pass old _ ih =>
    rw [List.cons_append, walk, if_neg fun left => (mem_unvisited.mp left).2 old]
    exact ih (List.forall_mem_cons.mp live).2 stack
  | @visit visited between visited' step steps below behind new _ _ inner outer =>
    obtain ⟨here, live⟩ := List.forall_mem_cons.mp live
    rw [List.cons_append, walk, if_pos (mem_unvisited.mpr ⟨here, new⟩), ← unvisited_cons wf,
      inner (stepsFrom_live wf _), outer live, List.cons_append, List.append_assoc]

theorem Descends.taken_eq (descends : g.Descends visited steps taken visited') (wf : g.WellFormed)
    (live : ∀ step ∈ steps, step.node ∈ g.nodeIds) :
    taken = g.walk (g.unvisited visited) steps := by
  have whole := descends.walk_append wf live []
  rw [List.append_nil, walk, List.append_nil] at whole
  exact whole.symm

/-- The recursion ends, since fewer nodes are left below every step that is taken. -/
theorem exists_descends (wf : g.WellFormed) (visited : List NodeId)
    (live : ∀ step ∈ steps, step.node ∈ g.nodeIds) :
    ∃ taken visited', g.Descends visited steps taken visited' ∧
      (g.unvisited visited').length ≤ (g.unvisited visited).length := by
  generalize left : (g.unvisited visited).length = n
  induction n using Nat.strongRecOn generalizing visited steps with
  | _ n fewer =>
    induction steps with
    | nil => exact ⟨[], visited, .nil visited, Nat.le_of_eq left⟩
    | cons step steps ih =>
      obtain ⟨here, live⟩ := List.forall_mem_cons.mp live
      by_cases old : step.node ∈ visited
      · obtain ⟨taken, visited', descends, le⟩ := ih live
        exact ⟨taken, visited', .pass old descends, le⟩
      · have less : (g.unvisited (step.node :: visited)).length < n := by
          have mem := mem_unvisited.mpr ⟨here, old⟩
          have positive := List.length_pos_of_mem mem
          rw [unvisited_cons wf, List.length_erase_of_mem mem]
          omega
        obtain ⟨below, between, inner, le⟩ := fewer _ less _ (stepsFrom_live wf step.node) rfl
        obtain ⟨behind, visited', outer, le'⟩ := fewer _ (by omega) between live rfl
        exact ⟨_, visited', .visit old inner outer, by omega⟩

/-! ## The loop -/

/-- The state of a walk with a stack and the steps that were taken. -/
structure Search where
  visited : List NodeId := []
  stack : List Step
  steps : List Step := []

/-- One turn of the loop. Nothing is done without a step on the stack. -/
def turn (g : Graph N E) (s : Search) : Search :=
  match s.stack with
  | [] => s
  | step :: stack =>
    if step.node ∈ s.visited then { s with stack }
    else ⟨step.node :: s.visited, g.stepsFrom step.node ++ stack, s.steps ++ [step]⟩

theorem stepsFrom_length (wf : g.WellFormed) (id : NodeId) :
    (g.stepsFrom id).length = g.edges.countP (·.2.source = id) := by
  rw [stepsFrom_eq wf, List.length_map, List.countP_eq_length_filter]

/-- The edges that leave the nodes that are left, without those of the next node. -/
theorem countP_unvisited {id : NodeId} (new : id ∉ visited) :
    g.edges.countP (·.2.source ∉ visited) =
      g.edges.countP (·.2.source = id) + g.edges.countP (·.2.source ∉ id :: visited) := by
  rw [List.countP_eq_countP_filter_add _ _ (·.2.source = id), List.countP_filter,
    List.countP_filter]
  congr 1
  · refine List.countP_congr fun e _ => ?_
    simp only [Bool.and_eq_true, decide_eq_true_eq, and_iff_right_iff_imp]
    rintro rfl
    exact new
  · refine List.countP_congr fun e _ => ?_
    simp [and_comm]

theorem iterate_turn_nil (n : Nat) :
    g.turn^[n] ⟨visited, [], steps⟩ = ⟨visited, [], steps⟩ :=
  Function.iterate_fixed rfl n

/-- A turn uses up a step of the stack, and the edges of a node come onto it once. -/
theorem iterate_turn (wf : g.WellFormed) (visited : List NodeId) (steps : List Step)
    {stack : List Step} {n : Nat}
    (live : ∀ step ∈ stack, step.node ∈ g.nodeIds)
    (enough : stack.length + g.edges.countP (·.2.source ∉ visited) ≤ n) :
    (g.turn^[n] ⟨visited, stack, steps⟩).stack = [] ∧
      (g.turn^[n] ⟨visited, stack, steps⟩).steps = steps ++ g.walk (g.unvisited visited) stack := by
  induction n generalizing visited stack steps with
  | zero =>
    obtain rfl : stack = [] := List.length_eq_zero_iff.mp (by omega)
    rw [walk, List.append_nil]
    exact ⟨rfl, rfl⟩
  | succ n ih =>
    cases stack with
    | nil =>
      rw [iterate_turn_nil, walk, List.append_nil]
      exact ⟨rfl, rfl⟩
    | cons step stack =>
      obtain ⟨here, live⟩ := List.forall_mem_cons.mp live
      rw [List.length_cons] at enough
      rw [Function.iterate_succ_apply, turn, walk]
      by_cases old : step.node ∈ visited
      · rw [if_neg fun left => (mem_unvisited.mp left).2 old]
        simp only [old, if_true]
        exact ih visited steps live (by omega)
      · have live' : ∀ next ∈ g.stepsFrom step.node ++ stack, next.node ∈ g.nodeIds :=
          List.forall_mem_append.mpr ⟨stepsFrom_live wf step.node, live⟩
        have fewer := countP_unvisited (g := g) old
        rw [if_pos (mem_unvisited.mpr ⟨here, old⟩), ← unvisited_cons wf]
        simp only [old, if_false]
        have enough' : (g.stepsFrom step.node ++ stack).length +
            g.edges.countP (·.2.source ∉ step.node :: visited) ≤ n := by
          rw [List.length_append, stepsFrom_length wf]
          omega
        obtain ⟨done, taken⟩ := ih (step.node :: visited) (steps ++ [step]) live' enough'
        exact ⟨done, taken.trans (List.append_assoc ..)⟩

/-! ## One walk -/

/-- Every edge of a walk leaves a node that was met before. -/
theorem Follows.earlier {before : List NodeId} {edges : List (EdgeId × Edge E)}
    (follows : g.Follows before edges) {front back : List (EdgeId × Edge E)}
    {e : EdgeId × Edge E} (split : edges = front ++ e :: back) :
    e ∈ g.edges ∧ e.2.source ∈ before ++ front.map (·.2.target) := by
  induction follows generalizing front with
  | nil => simp at split
  | @cons before first rest inside source new _ ih =>
    cases front with
    | nil =>
      obtain ⟨rfl, -⟩ := List.cons.inj split
      exact ⟨inside, by simpa using source⟩
    | cons _ front =>
      obtain ⟨rfl, later⟩ := List.cons.inj split
      simpa using ih later

/-- From a live origin the loop comes to its end and the recursion to a result, and both are the
walk. It visits the nodes that the origin leads to, each once, and every node but the origin along
a live edge from a node that it visited before. -/
theorem walkFrom_descends (reachable : g.Reachable) {origin : NodeId} (live : g.contains origin) :
    let start : Step := ⟨none, none, origin⟩
    (∀ n, g.edgeCount < n →
      (g.turn^[n] { stack := [start] }).stack = [] ∧
        (g.turn^[n] { stack := [start] }).steps = g.walkFrom origin) ∧
      (∀ taken, (∃ visited, g.Descends [] [start] taken visited) ↔ taken = g.walkFrom origin) ∧
      (∀ id, id ∈ (g.walkFrom origin).map Step.node ↔ Relation.ReflTransGen g.Leads origin id) ∧
      ((g.walkFrom origin).map Step.node).Nodup ∧
      ∃ behind, g.walkFrom origin = start :: behind ∧
        ∀ front step back, behind = front ++ step :: back →
          ∃ id edge, step = ⟨some edge.source, some id, edge.target⟩ ∧ g.edge? id = some edge ∧
            edge.source ∈ (start :: front).map Step.node := by
  intro start
  have wf := reachable.wellFormed
  have here : origin ∈ g.nodeIds := (mem_nodeIds wf).mpr live
  have lives : ∀ step ∈ [start], step.node ∈ g.nodeIds := List.forall_mem_singleton.mpr here
  refine ⟨fun n enough => ?_, fun taken => ⟨?_, ?_⟩, mem_walkFrom_iff wf here,
    walkFrom_nodup wf origin, ?_⟩
  · have all : g.edges.countP (·.2.source ∉ []) = g.edgeCount := by
      simp [edgeCount_eq wf]
    have room : [start].length + g.edges.countP (·.2.source ∉ []) ≤ n := by
      rw [all, List.length_singleton]
      omega
    have finished := iterate_turn wf [] [] lives room
    rwa [unvisited_nil] at finished
  · rintro ⟨visited, descends⟩
    rw [descends.taken_eq wf lives, unvisited_nil, walkFrom]
  · rintro rfl
    obtain ⟨taken, visited, descends, -⟩ := exists_descends wf [] lives
    refine ⟨visited, ?_⟩
    rwa [descends.taken_eq wf lives, unvisited_nil] at descends
  · obtain ⟨edges, walked, follows⟩ := walkFrom_eq wf here
    refine ⟨_, walked, fun front step back split => ?_⟩
    obtain ⟨front, later, rfl, rfl, rest⟩ := List.map_eq_append_iff.mp split
    obtain ⟨e, back, rfl, rfl, -⟩ := List.map_eq_cons_iff.mp rest
    obtain ⟨inside, source⟩ := follows.earlier rfl
    refine ⟨e.1, e.2, rfl, (edge?_eq_some_iff wf).mpr inside, ?_⟩
    simpa [stepAlong, Function.comp_def] using source

/-- Two edges lead to the second node and one leads back from it. The first node is in a slot that
was used before. -/
def crossed : Graph Nat Nat :=
  empty.applyAll [.createNode 9, .removeNode ⟨0, 0⟩, .createNode 1, .createNode 2, .createNode 3,
    .createEdge ⟨0, 1⟩ ⟨2, 0⟩ 1, .createEdge ⟨0, 1⟩ ⟨1, 0⟩ 2, .createEdge ⟨2, 0⟩ ⟨1, 0⟩ 3,
    .createEdge ⟨1, 0⟩ ⟨0, 1⟩ 4]

/-- The second node is reached through the third, and the step that waited for it is dropped. -/
theorem walkFrom_descends_crossed :
    let start : Step := ⟨none, none, ⟨0, 1⟩⟩
    let steps := [start, ⟨some ⟨0, 1⟩, some ⟨0, 0⟩, ⟨2, 0⟩⟩, ⟨some ⟨2, 0⟩, some ⟨2, 0⟩, ⟨1, 0⟩⟩]
    crossed.Reachable ∧ crossed.contains ⟨0, 1⟩ ∧ crossed.walkFrom ⟨0, 1⟩ = steps ∧
      (crossed.turn^[5] { stack := [start] }).steps = steps ∧
      ∃ visited, crossed.Descends [] [start] steps visited := by
  intro start steps
  have made : crossed.Reachable := Reachable.empty.applyAll _
  have live : crossed.contains ⟨0, 1⟩ := by decide
  have walked : crossed.walkFrom ⟨0, 1⟩ = steps := by cbv
  obtain ⟨turns, recursion, -⟩ := walkFrom_descends made live
  exact ⟨made, live, walked, (turns 5 (by decide)).2.trans walked, (recursion steps).mpr walked.symm⟩

end Tangible.Graph
