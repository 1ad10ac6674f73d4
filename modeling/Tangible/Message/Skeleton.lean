import Tangible.Message.Run
import Tangible.Graph.Layout
import Tangible.Graph.Topology
import Tangible.Graph.Isomorphism

/-!
# Skeletons

A skeleton is a trunk tree of joints. Its arguments are the joints in the order of the walk from
the origin; a jump back is announced by a true and the place of the joint where the walk goes on.
-/

namespace Tangible

open Osc (Arg)

/-- The separator before an entry that does not follow its parent. -/
def jumpArgs : Option UInt32 → List Arg
  | none => []
  | some place => [.bool true, .ofId place]

/-- Points that can be joints: their arguments, and the readers of one point and of a list of
entries. -/
class Joint (P : Type) where
  args : P → List Arg
  first? : List Arg → Option (P × List Arg)
  entries? : List Arg → Option (List (Entry P Unit))

namespace Joint

def first2? : List Arg → Option (Point2 × List Arg)
  | .float x :: .float y :: rest => some (⟨x, y⟩, rest)
  | _ => none

def entries2? : List Arg → Option (List (Entry Point2 Unit))
  | [] => some []
  | .bool true :: .int place :: .float x :: .float y :: rest =>
    (entries2? rest).map (⟨some place.toUInt32, ⟨x, y⟩, ()⟩ :: ·)
  | .float x :: .float y :: rest => (entries2? rest).map (⟨none, ⟨x, y⟩, ()⟩ :: ·)
  | _ => none

def first3? : List Arg → Option (Point3 × List Arg)
  | .float x :: .float y :: .float z :: rest => some (⟨x, y, z⟩, rest)
  | _ => none

def entries3? : List Arg → Option (List (Entry Point3 Unit))
  | [] => some []
  | .bool true :: .int place :: .float x :: .float y :: .float z :: rest =>
    (entries3? rest).map (⟨some place.toUInt32, ⟨x, y, z⟩, ()⟩ :: ·)
  | .float x :: .float y :: .float z :: rest =>
    (entries3? rest).map (⟨none, ⟨x, y, z⟩, ()⟩ :: ·)
  | _ => none

instance : Joint Point2 := ⟨Run.ofPoint2, first2?, entries2?⟩

instance : Joint Point3 := ⟨Run.ofPoint3, first3?, entries3?⟩

end Joint

/-- The origin is set exactly when the graph has nodes. -/
structure Skeleton (P : Type) where
  sessionId : UInt32 := 0
  graph : Graph P Unit := .empty
  origin : Option NodeId := none

namespace Skeleton

variable {P : Type}

/-- Takes over an empty graph or a trunk tree. -/
def withGraph (s : Skeleton P) (graph : Graph P Unit) : Except Topology (Skeleton P) :=
  if graph.isEmpty then .ok { s with graph, origin := none }
  else
    match graph.anchor? .trunkTree with
    | some origin => .ok { s with graph, origin := some origin }
    | none => .error .trunkTree

def clearGraph (s : Skeleton P) : Skeleton P :=
  { s with graph := s.graph.clear, origin := none }

def mapJoints (s : Skeleton P) (f : P → P) : Skeleton P :=
  { s with graph := s.graph.mapNodes f }

def entries (s : Skeleton P) : List (Entry P (Option Unit)) :=
  match s.origin with
  | some origin => s.graph.entriesFrom origin
  | none => []

/-- The joints in wire order. -/
def joints (s : Skeleton P) : List P :=
  s.entries.map Entry.value

def args [Joint P] (s : Skeleton P) : List Arg :=
  .ofId s.sessionId ::
    s.entries.flatMap fun entry => jumpArgs entry.parent ++ Joint.args entry.value

def ofArgs? [Joint P] : List Arg → Option (Skeleton P)
  | [.int session] => some { sessionId := session.toUInt32 }
  | .int session :: rest => do
    let (origin, rest) ← Joint.first? rest
    let entries ← Joint.entries? rest
    let graph ← Graph.ofEntries? origin entries
    (withGraph { sessionId := session.toUInt32 } graph).toOption
  | _ => none

def text (s : Skeleton P) : String :=
  s!"s_id={s.sessionId} joints={s.graph.nodeCount} bones={s.graph.edgeCount}"

instance [BEq P] : BEq (Skeleton P) :=
  ⟨fun a b => a.sessionId == b.sessionId && a.graph == b.graph⟩

end Skeleton

end Tangible
