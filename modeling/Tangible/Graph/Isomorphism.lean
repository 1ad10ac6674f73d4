import Tangible.Graph.Basic

/-!
# Isomorphism

Two graphs are isomorphic when their nodes can be paired so that payloads agree and between every
two nodes run the same edges as between their partners. `isIsomorphic` looks for such a pairing:
it takes the nodes of the first graph in order and tries the nodes of the second in order. Handles
and the order of creation play no part in the answer.

`==` on graphs is isomorphism.
-/

namespace Tangible.Graph

variable {N E : Type} [BEq N] [BEq E]

/-- The list without its first item that equals the given one. -/
def removeFirst? {α : Type} [BEq α] (a : α) : List α → Option (List α)
  | [] => none
  | b :: rest => if b == a then some rest else (removeFirst? a rest).map (b :: ·)

/-- Whether two lists have the same items, whatever their order. -/
def sameItems {α : Type} [BEq α] : List α → List α → Bool
  | [], bs => bs.isEmpty
  | a :: as, bs =>
    match removeFirst? a bs with
    | some rest => sameItems as rest
    | none => false

def payloadsBetween (g : Graph N E) (source target : NodeId) : List E :=
  (g.outEdges source).filterMap fun (_, edge) =>
    if edge.target = target then some edge.value else none

/-- Whether the edges between two nodes are those between their partners, in both directions. -/
def sameEdges (g h : Graph N E) (a b : NodeId × NodeId) : Bool :=
  sameItems (g.payloadsBetween a.1 b.1) (h.payloadsBetween a.2 b.2) &&
    sameItems (g.payloadsBetween b.1 a.1) (h.payloadsBetween b.2 a.2)

def alike (g h : Graph N E) (a b : NodeId) : Bool :=
  g.value? a == h.value? b && g.inDegree a == h.inDegree b && g.outDegree a == h.outDegree b

/-- Pairs the nodes of the list one after the other, keeping the pairs made before. -/
def pairUp (g h : Graph N E) (pairs : List (NodeId × NodeId)) : List NodeId → Bool
  | [] => true
  | a :: rest =>
    h.nodeIds.any fun b =>
      !(pairs.any (·.2 = b)) && alike g h a b &&
        (pairs ++ [(a, b)]).all (sameEdges g h (a, b)) &&
        pairUp g h (pairs ++ [(a, b)]) rest

def isIsomorphic (g h : Graph N E) : Bool :=
  g.nodeCount == h.nodeCount && g.edgeCount == h.edgeCount && pairUp g h [] g.nodeIds

instance : BEq (Graph N E) := ⟨isIsomorphic⟩

end Tangible.Graph
