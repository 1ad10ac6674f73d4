import Tangible.Graph.Walk

/-!
# Shapes of graphs

Three shapes and the node that each is built around: the center of a star, the origin of a chain
and the origin of a trunk tree. `anchor?` finds that node if the whole graph has the shape. All
three have one edge less than nodes and one node that nothing leads to.
-/

namespace Tangible

inductive Topology where
  /-- One node with an edge to each of the others. -/
  | star
  /-- A line of nodes, each with an edge to the next. -/
  | chain
  /-- A tree whose root has at most one child. -/
  | trunkTree
deriving DecidableEq, Repr

def Topology.text : Topology → String
  | .star => "star"
  | .chain => "chain"
  | .trunkTree => "trunk tree"

namespace Graph

variable {N E : Type}

/-- The node that nothing leads to, if there is exactly one. -/
def source? (g : Graph N E) : Option NodeId :=
  match g.nodeIds.filter (g.inDegree · = 0) with
  | [id] => some id
  | _ => none

def isTreeSized (g : Graph N E) : Bool :=
  g.nodeCount ≠ 0 && g.edgeCount == g.nodeCount - 1

def reachesAll (g : Graph N E) (origin : NodeId) : Bool :=
  (g.walkFrom origin).length == g.nodeCount

def isStarCenter (g : Graph N E) (center : NodeId) : Bool :=
  g.outDegree center == g.nodeCount - 1 &&
    g.nodeIds.all fun id => id = center || (g.inDegree id == 1 && g.outDegree id == 0)

def isChainOrigin (g : Graph N E) (origin : NodeId) : Bool :=
  g.nodeIds.all (fun id => g.inDegree id ≤ 1 && g.outDegree id ≤ 1) && g.reachesAll origin

def isTrunkOrigin (g : Graph N E) (origin : NodeId) : Bool :=
  g.outDegree origin ≤ 1 &&
    g.nodeIds.all (fun id => id = origin || g.inDegree id == 1) && g.reachesAll origin

def isAnchor (g : Graph N E) : Topology → NodeId → Bool
  | .star => g.isStarCenter
  | .chain => g.isChainOrigin
  | .trunkTree => g.isTrunkOrigin

def anchor? (g : Graph N E) (topology : Topology) : Option NodeId :=
  if g.isTreeSized then g.source?.filter (g.isAnchor topology) else none

end Graph

end Tangible
