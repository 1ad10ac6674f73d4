import Tangible.Message.Halves
import Tangible.Message.Skeleton

/-!
# Associations

A container holds other sessions in one of its slots. Links connect a session with others: as a
star around it, as a chain that starts at it, or as a trunk tree that it is the origin of. Every
link leaves by an output port and arrives at an input port.

The node that a link graph is built around carries the session id of the message.
-/

namespace Tangible

open Osc (Arg)

/-! ## Containers -/

structure Container where
  sessionId : UInt32 := 0
  slot : UInt32 := 0
  contained : List UInt32 := []
deriving BEq, DecidableEq, Repr

namespace Container

def args (c : Container) : List Arg :=
  Run.ofIds (c.sessionId :: c.slot :: c.contained)

def ofArgs? : List Arg → Option Container
  | .int session :: .int slot :: rest =>
    (Run.ids? rest).map (⟨session.toUInt32, slot.toUInt32, ·⟩)
  | _ => none

def text (c : Container) : String :=
  s!"s_id={c.sessionId} slot={c.slot} contains=" ++ idsText c.contained

end Container

/-! ## Ports -/

structure Ports where
  output : UInt16 := 0
  input : UInt16 := 0
deriving BEq, DecidableEq, Repr

namespace Ports

def packed (p : Ports) : UInt32 :=
  joinHalves p.output p.input

def ofPacked (word : UInt32) : Ports :=
  ⟨upperHalf word, lowerHalf word⟩

def text (p : Ports) : String :=
  s!"{p.output}->{p.input}"

end Ports

/-! ## Links -/

abbrev LinkGraph := Graph UInt32 Ports

/-- Links in one of the three shapes. The anchor is the node that the graph is built around; it is
set exactly when the graph has nodes. -/
structure Links (shape : Topology) where
  sessionId : UInt32 := 0
  physical : Bool := false
  graph : LinkGraph := .empty
  anchor : Option NodeId := none

namespace Links

variable {shape : Topology}

def clearGraph (l : Links shape) : Links shape :=
  { l with graph := l.graph.clear, anchor := none }

/-- Takes over a graph of the right shape. A single node without links says no more than no graph
at all, and is stored as none. -/
def withGraph (l : Links shape) (graph : LinkGraph) : Except Topology (Links shape) :=
  if graph.edgeCount = 0 ∧ graph.nodeCount ≤ 1 then .ok l.clearGraph
  else
    match graph.anchor? shape with
    | some anchor =>
      .ok { l with graph := graph.setNode anchor l.sessionId, anchor := some anchor }
    | none => .error shape

def withSessionId (l : Links shape) (id : UInt32) : Links shape :=
  { l with
    sessionId := id
    graph := match l.anchor with
      | some anchor => l.graph.setNode anchor id
      | none => l.graph }

def withPhysical (l : Links shape) (physical : Bool) : Links shape :=
  { l with physical }

/-- The links that leave the anchor, with the sessions that they lead to. -/
def direct (l : Links shape) : List (UInt32 × Ports) :=
  match l.anchor with
  | some anchor =>
    (l.graph.outEdges anchor).filterMap fun (_, edge) =>
      (l.graph.value? edge.target).map (·, edge.value)
  | none => []

def entries (l : Links shape) : List (Entry UInt32 (Option Ports)) :=
  match l.anchor with
  | some anchor => l.graph.entriesFrom anchor
  | none => []

/-- The sessions in the order of the walk from the anchor, which comes first. -/
def sessions (l : Links shape) : List UInt32 :=
  l.entries.map Entry.value

def linkArgs (session : UInt32) (ports : Option Ports) : List Arg :=
  Run.ofIds [session, (ports.map Ports.packed).getD 0]

/-- The links of a star stand side by side. The other shapes are written as trees without the
entry of their origin, which is the session of the message. -/
def body (l : Links shape) : List Arg :=
  match shape with
  | .star => l.direct.flatMap fun (session, ports) => linkArgs session (some ports)
  | .chain | .trunkTree =>
    l.entries.tail.flatMap fun entry => jumpArgs entry.parent ++ linkArgs entry.value entry.edge

def args (l : Links shape) : List Arg :=
  .ofId l.sessionId :: .bool l.physical :: l.body

/-- Links without separators, as entries with the given parent. -/
def flatEntries? (parent : Option UInt32) : List Arg → Option (List (Entry UInt32 Ports))
  | [] => some []
  | .int session :: .int ports :: rest =>
    (flatEntries? parent rest).map
      (⟨parent, session.toUInt32, .ofPacked ports.toUInt32⟩ :: ·)
  | _ => none

def treeEntries? : List Arg → Option (List (Entry UInt32 Ports))
  | [] => some []
  | .bool true :: .int place :: .int session :: .int ports :: rest =>
    (treeEntries? rest).map
      (⟨some place.toUInt32, session.toUInt32, .ofPacked ports.toUInt32⟩ :: ·)
  | .int session :: .int ports :: rest =>
    (treeEntries? rest).map (⟨none, session.toUInt32, .ofPacked ports.toUInt32⟩ :: ·)
  | _ => none

def entries? : Topology → List Arg → Option (List (Entry UInt32 Ports))
  | .star => flatEntries? (some 0)
  | .chain => flatEntries? none
  | .trunkTree => treeEntries?

def ofArgs? : List Arg → Option (Links shape)
  | .int session :: .bool physical :: rest => do
    let entries ← entries? shape rest
    let graph ← Graph.ofEntries? session.toUInt32 entries
    (withGraph { sessionId := session.toUInt32, physical } graph).toOption
  | _ => none

def text (l : Links shape) : String :=
  s!"s_id={l.sessionId} physical={l.physical} nodes={l.graph.nodeCount}" ++
    s!" links={l.graph.edgeCount}"

instance : BEq (Links shape) :=
  ⟨fun a b => a.sessionId == b.sessionId && a.physical == b.physical && a.graph == b.graph⟩

end Links

end Tangible
