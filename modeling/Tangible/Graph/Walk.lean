import Tangible.Graph.Basic

/-!
# Depth-first walks

`walkFrom` visits the nodes that can be reached from an origin along outgoing edges, each once and
before the nodes behind it. It works through a stack of steps; a step to a node that was visited in
the meantime is dropped. The nodes that are still to be visited are part of the state, so every
step leaves fewer of them or a shorter stack.
-/

namespace Tangible

/-- A visited node with the node and the edge that led to it. The origin has neither. -/
structure Step where
  parent : Option NodeId
  edge : Option EdgeId
  node : NodeId
deriving DecidableEq, Repr

namespace Graph

variable {N E : Type}

/-- The steps along the outgoing edges of a node. -/
def stepsFrom (g : Graph N E) (id : NodeId) : List Step :=
  (g.outEdges id).map fun (edgeId, edge) => ⟨some id, some edgeId, edge.target⟩

def walk (g : Graph N E) (unvisited : List NodeId) (stack : List Step) : List Step :=
  match stack with
  | [] => []
  | step :: stack =>
    if step.node ∈ unvisited then
      step :: g.walk (unvisited.erase step.node) (g.stepsFrom step.node ++ stack)
    else
      g.walk unvisited stack
termination_by (unvisited.length, stack.length)
decreasing_by
  · have positive := List.length_pos_of_mem ‹step.node ∈ unvisited›
    apply Prod.Lex.left
    rw [List.length_erase_of_mem ‹step.node ∈ unvisited›]
    omega
  · apply Prod.Lex.right
    simp

def walkFrom (g : Graph N E) (origin : NodeId) : List Step :=
  g.walk g.nodeIds [⟨none, none, origin⟩]

end Graph

end Tangible
