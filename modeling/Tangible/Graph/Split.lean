import Tangible.Graph.Components

/-!
# Splitting in one pass

The components can be filled side by side, with one pass over all nodes and one over all edges. Two
tables are looked up on the way: the places of the nodes among the components and the handles of
their copies. `split?` stops at a lookup that fails and at an edge that is refused.
-/

namespace Tangible.Graph

variable {N E : Type}

/-- The node sets of the components. -/
def groups (g : Graph N E) : List (List NodeId) :=
  g.componentsOf g.nodeIds g.nodeIds

/-- Every node with the place of its group. -/
def labels (groups : List (List NodeId)) : List (NodeId × Nat) :=
  groups.zipIdx.flatMap fun (group, place) => group.map (·, place)

/-- The components as far as they are filled, and the nodes with their copies, the latest first. -/
structure Split (N E : Type) where
  parts : List (Graph N E)
  renamed : List (NodeId × NodeId) := []

namespace Split

def addNode? (labels : List (NodeId × Nat)) (split : Split N E) (node : NodeId × N) :
    Option (Split N E) := do
  let place ← labels.lookup node.1
  let part ← split.parts[place]?
  let (fresh, part) := part.createNode node.2
  return ⟨split.parts.set place part, (node.1, fresh) :: split.renamed⟩

def addEdge? (labels : List (NodeId × Nat)) (split : Split N E) (edge : Edge E) :
    Option (Split N E) := do
  let place ← labels.lookup edge.source
  let part ← split.parts[place]?
  let source ← split.renamed.lookup edge.source
  let target ← split.renamed.lookup edge.target
  let (_, part) ← part.createEdge? source target edge.value
  return { split with parts := split.parts.set place part }

end Split

def split? (g : Graph N E) : Option (List (Graph N E)) := do
  let blank : Split N E := { parts := g.groups.map fun _ => empty }
  let split ← g.nodes.foldlM (Split.addNode? (labels g.groups)) blank
  let split ← (g.edges.map (·.2)).foldlM (Split.addEdge? (labels g.groups)) split
  return split.parts

end Tangible.Graph
