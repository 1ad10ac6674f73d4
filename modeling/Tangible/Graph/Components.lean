import Tangible.Graph.Basic

/-!
# Connected components

`components` splits a graph into the parts that are connected when the direction of the edges is
ignored. The parts come in the order of their earliest nodes; inside a part nodes and edges keep
their order and edges their direction.
-/

namespace Tangible.Graph

variable {N E : Type}

/-- The nodes at the other ends of the edges that touch a node. -/
def neighbours (g : Graph N E) (id : NodeId) : List NodeId :=
  g.successors id ++ (g.inEdges id).map (·.2.source)

/-- Spreads from the nodes of `frontier` over `unvisited` and returns the nodes that were met with
those that were not. -/
def spread (g : Graph N E) (unvisited frontier : List NodeId) : List NodeId × List NodeId :=
  match frontier with
  | [] => ([], unvisited)
  | id :: frontier =>
    if id ∈ unvisited then
      let (met, rest) := g.spread (unvisited.erase id) (frontier ++ g.neighbours id)
      (id :: met, rest)
    else
      g.spread unvisited frontier
termination_by (unvisited.length, frontier.length)
decreasing_by
  · have positive := List.length_pos_of_mem ‹id ∈ unvisited›
    apply Prod.Lex.left
    rw [List.length_erase_of_mem ‹id ∈ unvisited›]
    omega
  · apply Prod.Lex.right
    simp

/-- The node sets of the components, each begun at the earliest node left. -/
def componentsOf (g : Graph N E) : List NodeId → List NodeId → List (List NodeId)
  | [], _ => []
  | start :: starts, unvisited =>
    if start ∈ unvisited then
      let (met, rest) := g.spread unvisited [start]
      met :: g.componentsOf starts rest
    else
      g.componentsOf starts unvisited

/-- Copies nodes into a graph and pairs every handle with the one of its copy. -/
def copyNodes : List (NodeId × N) → Graph N E → List (NodeId × NodeId) × Graph N E
  | [], copy => ([], copy)
  | (id, value) :: rest, copy =>
    let (fresh, copy) := copy.createNode value
    let (renamed, copy) := copyNodes rest copy
    ((id, fresh) :: renamed, copy)

def copyEdges (renamed : List (NodeId × NodeId)) : List (Edge E) → Graph N E → Graph N E
  | [], copy => copy
  | edge :: rest, copy =>
    match renamed.lookup edge.source, renamed.lookup edge.target with
    | some source, some target =>
      match copy.createEdge? source target edge.value with
      | some (_, copy) => copyEdges renamed rest copy
      | none => copyEdges renamed rest copy
    | _, _ => copyEdges renamed rest copy

/-- A new graph of the given nodes and of the edges that leave them. -/
def restrict (g : Graph N E) (ids : List NodeId) : Graph N E :=
  let (renamed, copy) := copyNodes (g.nodes.filter (·.1 ∈ ids)) empty
  copyEdges renamed ((g.edges.map (·.2)).filter (·.source ∈ ids)) copy

def components (g : Graph N E) : List (Graph N E) :=
  (g.componentsOf g.nodeIds g.nodeIds).map g.restrict

end Tangible.Graph
