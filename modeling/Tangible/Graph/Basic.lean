import Tangible.Graph.Arena

/-!
# Directed multigraphs

Nodes and edges carry payloads and are addressed by handles. Every node lists its outgoing and its
incoming edges in the order in which they were made. Nodes and edges are listed in that order too.

An operation on a stale handle changes nothing. Removing a node removes every edge that touches it.
-/

namespace Tangible

structure NodeId where
  handle : Handle
deriving DecidableEq, Repr

structure EdgeId where
  handle : Handle
deriving DecidableEq, Repr

structure Node (N : Type) where
  value : N
  outgoing : List EdgeId := []
  incoming : List EdgeId := []

structure Edge (E : Type) where
  source : NodeId
  target : NodeId
  value : E

structure Graph (N E : Type) where
  nodeArena : Arena (Node N) := .empty
  edgeArena : Arena (Edge E) := .empty

namespace Graph

variable {N E : Type}

def empty : Graph N E := {}

/-! ## Observations -/

def node? (g : Graph N E) (id : NodeId) : Option (Node N) :=
  g.nodeArena.get? id.handle

def value? (g : Graph N E) (id : NodeId) : Option N :=
  (g.node? id).map Node.value

def edge? (g : Graph N E) (id : EdgeId) : Option (Edge E) :=
  g.edgeArena.get? id.handle

def contains (g : Graph N E) (id : NodeId) : Bool :=
  (g.node? id).isSome

def nodeCount (g : Graph N E) : Nat := g.nodeArena.size

def edgeCount (g : Graph N E) : Nat := g.edgeArena.size

def isEmpty (g : Graph N E) : Bool := g.nodeCount == 0

def nodeIds (g : Graph N E) : List NodeId :=
  g.nodeArena.order.map NodeId.mk

/-- The nodes in the order of their creation. -/
def nodes (g : Graph N E) : List (NodeId × N) :=
  g.nodeArena.entries.map fun (h, node) => (⟨h⟩, node.value)

/-- The edges in the order of their creation. -/
def edges (g : Graph N E) : List (EdgeId × Edge E) :=
  g.edgeArena.entries.map fun (h, edge) => (⟨h⟩, edge)

def resolve (g : Graph N E) (ids : List EdgeId) : List (EdgeId × Edge E) :=
  ids.filterMap fun id => (g.edge? id).map (id, ·)

def outgoing (g : Graph N E) (id : NodeId) : List EdgeId :=
  ((g.node? id).map Node.outgoing).getD []

def incoming (g : Graph N E) (id : NodeId) : List EdgeId :=
  ((g.node? id).map Node.incoming).getD []

def outEdges (g : Graph N E) (id : NodeId) : List (EdgeId × Edge E) :=
  g.resolve (g.outgoing id)

def inEdges (g : Graph N E) (id : NodeId) : List (EdgeId × Edge E) :=
  g.resolve (g.incoming id)

def successors (g : Graph N E) (id : NodeId) : List NodeId :=
  (g.outEdges id).map (·.2.target)

def outDegree (g : Graph N E) (id : NodeId) : Nat := (g.outgoing id).length

def inDegree (g : Graph N E) (id : NodeId) : Nat := (g.incoming id).length

/-! ## Changes -/

def createNode (g : Graph N E) (value : N) : NodeId × Graph N E :=
  let (handle, nodes) := g.nodeArena.insert { value }
  (⟨handle⟩, { g with nodeArena := nodes })

def modifyNode (g : Graph N E) (id : NodeId) (f : Node N → Node N) : Graph N E :=
  { g with nodeArena := g.nodeArena.modify id.handle f }

def setNode (g : Graph N E) (id : NodeId) (value : N) : Graph N E :=
  g.modifyNode id ({ · with value })

def setEdge (g : Graph N E) (id : EdgeId) (value : E) : Graph N E :=
  { g with edgeArena := g.edgeArena.modify id.handle ({ · with value }) }

/-- Connects two live nodes. -/
def createEdge? (g : Graph N E) (source target : NodeId) (value : E) :
    Option (EdgeId × Graph N E) :=
  if g.contains source ∧ g.contains target then
    let (handle, edges) := g.edgeArena.insert { source, target, value }
    let id : EdgeId := ⟨handle⟩
    let g := { g with edgeArena := edges }
    let g := g.modifyNode source fun node => { node with outgoing := node.outgoing ++ [id] }
    let g := g.modifyNode target fun node => { node with incoming := node.incoming ++ [id] }
    some (id, g)
  else none

def removeEdge (g : Graph N E) (id : EdgeId) : Graph N E :=
  match g.edge? id with
  | none => g
  | some edge =>
    let g := { g with edgeArena := g.edgeArena.erase id.handle }
    let g := g.modifyNode edge.source fun node =>
      { node with outgoing := node.outgoing.filter (· ≠ id) }
    g.modifyNode edge.target fun node =>
      { node with incoming := node.incoming.filter (· ≠ id) }

def removeNode (g : Graph N E) (id : NodeId) : Graph N E :=
  let g := (g.outgoing id ++ g.incoming id).foldl removeEdge g
  { g with nodeArena := g.nodeArena.erase id.handle }

/-- Forgets the slots with the elements, so later handles may equal earlier ones. -/
def clear (_ : Graph N E) : Graph N E := empty

def mapNodes (g : Graph N E) (f : N → N) : Graph N E :=
  { g with nodeArena := g.nodeArena.map fun node => { node with value := f node.value } }

/-- Gives the nodes new payloads in the order of their slots. -/
def assignNodes (g : Graph N E) (values : List N) : Graph N E :=
  { g with
    nodeArena := { g.nodeArena with
      slots := Arena.zipSlots (fun value node => { node with value }) g.nodeArena.slots values } }

end Graph

end Tangible
