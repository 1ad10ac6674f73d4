import Tangible.Proofs.Graph.Change

/-!
# Multigraphs

`Multigraph` is what a graph is meant to be: a list of nodes and a list of edges in the order of
their creation. An element goes by its number, and no number is given twice. Removing a node
removes the edges that touch it, and nothing else is ever removed.
-/

namespace Tangible

variable {N E : Type}

/-- An edge between numbered nodes. -/
structure Arrow (E : Type) where
  source : Nat
  target : Nat
  value : E

@[ext]
structure Multigraph (N E : Type) where
  nodes : List (Nat × N) := []
  edges : List (Nat × Arrow E) := []
  /-- The number of the next node. -/
  nextNode : Nat := 0
  /-- The number of the next edge. -/
  nextEdge : Nat := 0

namespace Multigraph

variable {m : Multigraph N E}

def Has (m : Multigraph N E) (n : Nat) : Prop := n ∈ m.nodes.map (·.1)

instance (m : Multigraph N E) (n : Nat) : Decidable (m.Has n) :=
  inferInstanceAs (Decidable (n ∈ m.nodes.map (·.1)))

def outEdges (m : Multigraph N E) (n : Nat) : List (Nat × Arrow E) :=
  m.edges.filter (·.2.source = n)

def inEdges (m : Multigraph N E) (n : Nat) : List (Nat × Arrow E) :=
  m.edges.filter (·.2.target = n)

def apply (m : Multigraph N E) : Change Nat Nat N E → Multigraph N E
  | .createNode value =>
    { m with nodes := m.nodes ++ [(m.nextNode, value)], nextNode := m.nextNode + 1 }
  | .createEdge source target value =>
    if m.Has source ∧ m.Has target then
      { m with
        edges := m.edges ++ [(m.nextEdge, ⟨source, target, value⟩)]
        nextEdge := m.nextEdge + 1 }
    else m
  | .removeNode n =>
    { m with
      nodes := m.nodes.filter (·.1 ≠ n)
      edges := m.edges.filter fun e => e.2.source ≠ n ∧ e.2.target ≠ n }
  | .removeEdge n => { m with edges := m.edges.filter (·.1 ≠ n) }
  | .setNode n value =>
    { m with nodes := m.nodes.map fun e => if e.1 = n then (e.1, value) else e }
  | .setEdge n value =>
    { m with edges := m.edges.map fun e => if e.1 = n then (e.1, { e.2 with value }) else e }
  | .mapNodes f => { m with nodes := m.nodes.map fun e => (e.1, f e.2) }
  | .clear => {}

def applyAll (m : Multigraph N E) (changes : List (Change Nat Nat N E)) : Multigraph N E :=
  changes.foldl apply m

/-- Numbers in ascending order, with the next number above all of them. -/
def Ascend (numbers : List Nat) (next : Nat) : Prop := (numbers ++ [next]).Pairwise (· < ·)

theorem Ascend.concat {numbers : List Nat} {next : Nat} (ascend : Ascend numbers next) :
    Ascend (numbers ++ [next]) (next + 1) := by
  have below := (List.pairwise_append.mp ascend).2.2
  refine List.pairwise_append.mpr ⟨ascend, List.pairwise_singleton .., ?_⟩
  intro n mem _ last
  rw [List.mem_singleton.mp last]
  rcases List.mem_append.mp mem with old | new
  · exact Nat.lt_succ_of_lt (below n old next (List.mem_singleton_self next))
  · exact List.mem_singleton.mp new ▸ Nat.lt_succ_self next

theorem Ascend.sublist {numbers part : List Nat} {next : Nat} (ascend : Ascend numbers next)
    (sub : part.Sublist numbers) : Ascend part next :=
  List.Pairwise.sublist (sub.append_right [next]) ascend

/-- The numbers ascend in the order of creation, and edges connect nodes of the multigraph. -/
structure Ordered (m : Multigraph N E) : Prop where
  nodes : Ascend (m.nodes.map (·.1)) m.nextNode
  edges : Ascend (m.edges.map (·.1)) m.nextEdge
  ends : ∀ e ∈ m.edges, m.Has e.2.source ∧ m.Has e.2.target

namespace Ordered

theorem empty : ({} : Multigraph N E).Ordered :=
  ⟨List.pairwise_singleton .., List.pairwise_singleton .., List.forall_mem_nil _⟩

/-- New payloads of nodes change neither numbers nor ends. -/
theorem setNodes (ordered : m.Ordered) {nodes : List (Nat × N)}
    (same : nodes.map (·.1) = m.nodes.map (·.1)) : Ordered { m with nodes } := by
  refine ⟨same ▸ ordered.nodes, ordered.edges, fun e inside => ?_⟩
  have ends := ordered.ends e inside
  rw [Has, Has] at ends ⊢
  exact same ▸ ends

theorem apply (ordered : m.Ordered) (change : Change Nat Nat N E) : (m.apply change).Ordered := by
  cases change with
  | createNode value =>
    refine ⟨?_, ordered.edges, fun e inside => ?_⟩
    · rw [Multigraph.apply, List.map_append]
      exact ordered.nodes.concat
    · have ends := ordered.ends e inside
      rw [Has, Has] at ends ⊢
      rw [Multigraph.apply, List.map_append]
      exact ends.imp (List.mem_append_left _) (List.mem_append_left _)
  | createEdge source target value =>
    rw [Multigraph.apply]
    by_cases live : m.Has source ∧ m.Has target
    · rw [if_pos live]
      refine ⟨ordered.nodes, ?_, fun e inside => ?_⟩
      · rw [List.map_append]
        exact ordered.edges.concat
      · rcases List.mem_append.mp inside with old | new
        · exact ordered.ends e old
        · obtain rfl := List.mem_singleton.mp new
          exact live
    · rwa [if_neg live]
  | removeNode n =>
    refine ⟨ordered.nodes.sublist (List.filter_sublist.map _),
      ordered.edges.sublist (List.filter_sublist.map _), fun e inside => ?_⟩
    obtain ⟨old, apart⟩ := List.mem_filter.mp inside
    rw [decide_eq_true_eq] at apart
    -- no edge is left that lost an end
    have left {k : Nat} (has : m.Has k) (ne : k ≠ n) : (m.apply (.removeNode n)).Has k := by
      obtain ⟨node, mem, rfl⟩ := List.mem_map.mp has
      exact List.mem_map_of_mem (List.mem_filter.mpr ⟨mem, by simpa using ne⟩)
    exact ⟨left (ordered.ends e old).1 apart.1, left (ordered.ends e old).2 apart.2⟩
  | removeEdge n =>
    exact ⟨ordered.nodes, ordered.edges.sublist (List.filter_sublist.map _),
      fun e inside => ordered.ends e (List.mem_filter.mp inside).1⟩
  | setNode n value => exact ordered.setNodes (map_fst_update _ (· = n) fun _ => value)
  | setEdge n value =>
    have same := map_fst_update m.edges (· = n) fun edge : Arrow E => { edge with value }
    refine ⟨ordered.nodes, ?_, fun e inside => ?_⟩
    · rw [Multigraph.apply, same]
      exact ordered.edges
    · obtain ⟨old, mem, rfl⟩ := List.mem_map.mp inside
      have ends := ordered.ends old mem
      split
      · exact ends
      · exact ends
  | mapNodes f =>
    refine ordered.setNodes ?_
    rw [List.map_map]
    rfl
  | clear => exact .empty

theorem applyAll (ordered : m.Ordered) (changes : List (Change Nat Nat N E)) :
    (m.applyAll changes).Ordered := by
  induction changes generalizing m with
  | nil => exact ordered
  | cons change changes ih => exact ih (ordered.apply change)

end Ordered

/-! An element that is not there cannot be changed. -/

theorem apply_removeNode_of_absent (ordered : m.Ordered) {n : Nat} (absent : ¬ m.Has n) :
    m.apply (.removeNode n) = m := by
  have apart {k : Nat} (has : m.Has k) : k ≠ n := fun same => absent (same ▸ has)
  have nodes : m.nodes.filter (·.1 ≠ n) = m.nodes := by
    refine List.filter_eq_self.mpr fun node inside => ?_
    simpa using apart (List.mem_map_of_mem inside)
  have edges : (m.edges.filter fun e => e.2.source ≠ n ∧ e.2.target ≠ n) = m.edges := by
    refine List.filter_eq_self.mpr fun e inside => ?_
    have ends := ordered.ends e inside
    simpa using And.intro (apart ends.1) (apart ends.2)
  rw [apply, nodes, edges]

theorem apply_removeEdge_of_absent {n : Nat} (absent : n ∉ m.edges.map (·.1)) :
    m.apply (.removeEdge n) = m := by
  have edges : m.edges.filter (·.1 ≠ n) = m.edges := by
    refine List.filter_eq_self.mpr fun e inside => ?_
    have apart : e.1 ≠ n := fun same => absent (same ▸ List.mem_map_of_mem inside)
    simpa using apart
  rw [apply, edges]

theorem map_update_of_absent {α : Type} {l : List (Nat × α)} {n : Nat}
    (absent : n ∉ l.map (·.1)) (f : α → α) :
    (l.map fun e => if e.1 = n then (e.1, f e.2) else e) = l := by
  refine (List.map_congr_left fun e inside => ?_).trans (List.map_id l)
  have apart : e.1 ≠ n := fun same => absent (same ▸ List.mem_map_of_mem inside)
  rw [if_neg apart]
  rfl

end Multigraph

end Tangible
