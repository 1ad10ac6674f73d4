import Tangible.Graph.Walk

/-!
# Trees as entry lists

A tree is written as one entry per node in the order of a depth-first walk. An entry stands for a
child of the entry before it; where the walk jumps back, the entry names the place of its parent in
the list instead. `entriesFrom` lists the entries below an origin and `ofEntries?` grows a tree
from them.
-/

namespace Tangible

structure Entry (N E : Type) where
  /-- The place of the parent's entry where it is not the entry before. -/
  parent : Option UInt32
  value : N
  edge : E
deriving BEq, DecidableEq

namespace Graph

variable {N E : Type}

/-- The place of the parent of a step among the nodes walked before, if it is not the last one. -/
def jump (before : List NodeId) (step : Step) : Option UInt32 :=
  match step.parent, before.getLast? with
  | some parent, some last =>
    if parent = last then none else some (.ofNat (before.idxOf parent))
  | _, _ => none

/-- The entries of a walk that goes on behind the nodes of `before`. -/
def entriesOf (g : Graph N E) (before : List NodeId) : List Step → List (Entry N (Option E))
  | [] => []
  | step :: rest =>
    let below := g.entriesOf (before ++ [step.node]) rest
    match g.value? step.node with
    | some value =>
      ⟨jump before step, value, (step.edge.bind g.edge?).map Edge.value⟩ :: below
    | none => below

/-- The entries of the nodes that can be reached from the origin, its own entry first. -/
def entriesFrom (g : Graph N E) (origin : NodeId) : List (Entry N (Option E)) :=
  g.entriesOf [] (g.walkFrom origin)

/-- Adds a node for every entry behind those that are already placed. An entry that names a place
behind the last one is refused. -/
def grow (placed : List NodeId) : List (Entry N E) → Graph N E → Option (Graph N E)
  | [], g => some g
  | entry :: rest, g => do
    let parent ← match entry.parent with
      | some place => placed[place.toNat]?
      | none => placed.getLast?
    let (node, g) := g.createNode entry.value
    let (_, g) ← g.createEdge? parent node entry.edge
    grow (placed ++ [node]) rest g

/-- The graph of an origin and the entries behind it. -/
def ofEntries? (origin : N) (entries : List (Entry N E)) : Option (Graph N E) :=
  let (node, g) := createNode empty origin
  grow [node] entries g

end Graph

end Tangible
