import Tangible.Message.Transform

/-!
# Updates

The operations that change a message with a graph, as the assignments that they make one after the
other. An operation that refuses its graph stops there, and the message keeps what was assigned
before.
-/

namespace Tangible

/-- Assignments to a value of `S`, which may end with a refusal of a graph. -/
abbrev Update (S : Type) := ExceptT Topology (StateM S)

namespace Update

variable {S : Type}

/-- What an update comes to, and the value behind it. -/
def on (u : Update S Unit) (s : S) : Except Topology Unit × S :=
  StateT.run (ExceptT.run u) s

/-- The value behind updates, each of which may be refused. -/
def onAll (us : List (Update S Unit)) (s : S) : S :=
  us.foldl (fun s u => (u.on s).2) s

end Update

namespace Links

variable {shape : Topology}

/-- The anchor is looked for before anything is assigned. It takes the session id that the message
has then. -/
def setGraph (graph : LinkGraph) : Update (Links shape) Unit := do
  if graph.edgeCount = 0 ∧ graph.nodeCount ≤ 1 then
    modify clearGraph
  else
    match graph.anchor? shape with
    | none => throw shape
    | some anchor =>
      let session := (← get).sessionId
      modify ({ · with graph := graph.setNode anchor session })
      modify ({ · with anchor := some anchor })

inductive Call where
  | setSessionId (id : UInt32)
  | setPhysical (physical : Bool)
  | setGraph (graph : LinkGraph)
  | clearGraph

def Call.update : Call → Update (Links shape) Unit
  | .setSessionId id => modify (·.withSessionId id)
  | .setPhysical physical => modify (·.withPhysical physical)
  | .setGraph graph => Links.setGraph graph
  | .clearGraph => modify Links.clearGraph

/-- The links behind calls. -/
def after (l : Links shape) (calls : List Call) : Links shape :=
  Update.onAll (calls.map Call.update) l

end Links

/-- Joints that transforms move. -/
class Movable (P : Type) where
  /-- What a transform does to a joint, if it applies to this dimension. -/
  motion? : Transform → Option (P → P)

instance : Movable Point2 := ⟨Transform.vertex?⟩

instance : Movable Point3 := ⟨fun t => some t.spatial⟩

namespace Skeleton

variable {P : Type}

/-- The origin is looked for before anything is assigned. -/
def setGraph (graph : Graph P Unit) : Update (Skeleton P) Unit := do
  if graph.isEmpty then
    modify ({ · with graph })
    modify ({ · with origin := none })
  else
    match graph.anchor? .trunkTree with
    | none => throw .trunkTree
    | some origin =>
      modify ({ · with graph })
      modify ({ · with origin := some origin })

inductive Call (P : Type) where
  | setSessionId (id : UInt32)
  | setGraph (graph : Graph P Unit)
  | clearGraph
  | transform (t : Transform)

def Call.update [Movable P] : Call P → Update (Skeleton P) Unit
  | .setSessionId sessionId => modify ({ · with sessionId })
  | .setGraph graph => Skeleton.setGraph graph
  | .clearGraph => modify Skeleton.clearGraph
  | .transform t =>
    match Movable.motion? t with
    | none => pure ()
    | some motion => modify (·.mapJoints motion)

/-- The skeleton behind calls. -/
def after [Movable P] (s : Skeleton P) (calls : List (Call P)) : Skeleton P :=
  Update.onAll (calls.map Call.update) s

end Skeleton

end Tangible
