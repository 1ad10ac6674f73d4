import Tangible.Message.Basic
import Tangible.Text.Term

/-!
# Messages as terms

Diagnostic texts that show every field of a message. Numbers are marked as fractional and texts are
quoted.
-/

namespace Tangible

open Text (applied bracketed optional quoted record tuple)

/-! ## Fields -/

def Point2.fields (p : Point2) : List (String × String) :=
  [("x", Decimal.exact p.x), ("y", Decimal.exact p.y)]

def Point3.fields (p : Point3) : List (String × String) :=
  [("x", Decimal.exact p.x), ("y", Decimal.exact p.y), ("z", Decimal.exact p.z)]

def Point2.term (p : Point2) : String := record "Point2" p.fields

def Point3.term (p : Point3) : String := record "Point3" p.fields

def Span.term (s : Span) : String :=
  record "Span"
    [("x", Decimal.exact s.x), ("y", Decimal.exact s.y), ("width", Decimal.exact s.width)]

def Motion2.term (m : Motion2) : String :=
  record "Motion2d"
    (["x_vel", "y_vel", "a_vel", "m_acc", "r_acc"].zip (m.toFloats.map Decimal.exact))

def Motion3.term (m : Motion3) : String :=
  record "Motion3d"
    (["x_vel", "y_vel", "z_vel", "a_vel", "m_acc", "r_acc"].zip (m.toFloats.map Decimal.exact))

def Identity.fields (i : Identity) : List (String × String) :=
  [("session_id", toString i.sessionId), ("type_id", toString i.typeId),
    ("user_id", toString i.userId), ("component_id", toString i.componentId)]

def sessionField (id : UInt32) : String × String :=
  ("session_id", toString id)

/-! ## Arguments -/

def bytesTerm (bytes : List UInt8) : String :=
  bracketed (bytes.map toString)

mutual

def Osc.Arg.term : Osc.Arg → String
  | .int v => applied "Int" [toString v]
  | .float v => applied "Float" [Decimal.exact v]
  | .string v => applied "String" [quoted v]
  | .blob v => applied "Blob" [bytesTerm v]
  | .time v =>
    applied "Time"
      [record "OscTime" [("seconds", toString v.seconds), ("fractional", toString v.fraction)]]
  | .long v => applied "Long" [toString v]
  | .double v => applied "Double" [Decimal.exactDouble v]
  | .char v => applied "Char" [Text.quotedChar v]
  | .color r g b a =>
    applied "Color"
      [record "OscColor"
        [("red", toString r), ("green", toString g), ("blue", toString b), ("alpha", toString a)]]
  | .midi port status data1 data2 =>
    applied "Midi"
      [record "OscMidiMessage"
        [("port", toString port), ("status", toString status), ("data1", toString data1),
          ("data2", toString data2)]]
  | .bool v => applied "Bool" [toString v]
  | .array items => applied "Array" [record "OscArray" [("content", bracketed (argTerms items))]]
  | .nil => "Nil"
  | .infinitum => "Inf"

def argTerms : List Osc.Arg → List String
  | [] => []
  | arg :: rest => arg.term :: argTerms rest

end

/-! ## Graphs -/

def NodeId.term (id : NodeId) : String :=
  applied "NodeId"
    [record "RawHandle"
      [("index", toString id.handle.slot), ("generation", toString id.handle.generation)]]

/-- Nodes are numbered in the order of their creation. -/
def Graph.term {N E : Type} (node : N → String) (edge : E → String) (g : Graph N E) : String :=
  let place (id : NodeId) : String := toString (g.nodeIds.idxOf id)
  record "Graph"
    [ ("nodes", bracketed (g.nodes.map fun (_, value) => node value)),
      ("edges",
        bracketed (g.edges.map fun (_, e) => tuple [place e.source, place e.target, edge e.value])) ]

def Ports.term (p : Ports) : String :=
  record "LinkPorts" [("output", toString p.output), ("input", toString p.input)]

def Skeleton.term {P : Type} (joint : P → String) (s : Skeleton P) : String :=
  record "Skeleton"
    [ sessionField s.sessionId, ("graph", s.graph.term joint fun _ => "()"),
      ("origin", optional (s.origin.map NodeId.term)) ]

def Links.term {shape : Topology} (name : String) (l : Links shape) : String :=
  let state :=
    record "LinkState"
      [ sessionField l.sessionId, ("physical", toString l.physical),
        ("graph", l.graph.term toString Ports.term),
        ("anchor", optional (l.anchor.map NodeId.term)) ]
  record name [("state", state)]

/-! ## Messages -/

def Pointer.term (p : Pointer) : String :=
  record "Pointer"
    (p.identity.fields ++ p.position.fields ++
      [ ("angle", Decimal.exact p.angle), ("shear", Decimal.exact p.shear),
        ("radius", Decimal.exact p.radius), ("pressure", Decimal.exact p.pressure),
        ("motion", optional (p.motion.map Motion2.term)) ])

def Token.term (t : Token) : String :=
  record "Token"
    (t.identity.fields ++ t.position.fields ++
      [("angle", Decimal.exact t.angle), ("motion", optional (t.motion.map Motion2.term))])

def Bounds.term (b : Bounds) : String :=
  record "Bounds"
    (sessionField b.sessionId :: b.position.fields ++
      [ ("angle", Decimal.exact b.angle), ("width", Decimal.exact b.width),
        ("height", Decimal.exact b.height), ("area", Decimal.exact b.area),
        ("motion", optional (b.motion.map Motion2.term)) ])

def Symbol.term (s : Symbol) : String :=
  record "Symbol" (s.identity.fields ++ [("group", quoted s.group), ("data", quoted s.data)])

def Pointer3.term (p : Pointer3) : String :=
  record "Pointer3d"
    (p.identity.fields ++ p.position.fields ++
      [ ("axis", p.axis.term), ("radius", Decimal.exact p.radius),
        ("motion", optional (p.motion.map Motion3.term)) ])

def Token3.term (t : Token3) : String :=
  record "Token3d"
    (t.identity.fields ++ t.position.fields ++
      [ ("angle", Decimal.exact t.angle), ("axis", t.axis.term),
        ("motion", optional (t.motion.map Motion3.term)) ])

def Bounds3.term (b : Bounds3) : String :=
  record "Bounds3d"
    (sessionField b.sessionId :: b.position.fields ++
      [ ("angle", Decimal.exact b.angle), ("axis", b.axis.term),
        ("width", Decimal.exact b.width), ("height", Decimal.exact b.height),
        ("depth", Decimal.exact b.depth), ("volume", Decimal.exact b.volume),
        ("motion", optional (b.motion.map Motion3.term)) ])

def Content.term : Content → String
  | .plain text => applied "Text" [quoted text]
  | .binary bytes => applied "Binary" [bytesTerm bytes]

def Outline.term (name : String) (o : Outline) : String :=
  record name [sessionField o.sessionId, ("points", bracketed (o.points.map Point2.term))]

def Frame.term (f : Frame) : String :=
  let time :=
    record "Timetag"
      [("seconds", toString f.time.seconds), ("fraction", toString f.time.fraction)]
  record "FrameMessage"
    [ ("frame_id", toString f.id), ("time", time), ("app_name", quoted f.application),
      ("address", toString f.address), ("instance_id", toString f.instanceId),
      ("width", toString f.width), ("height", toString f.height) ]

namespace Message

/-- The fields of a message behind the name of its record. -/
def recordTerm : Message → String
  | .pointer m => m.term
  | .token m => m.term
  | .bounds m => m.term
  | .symbol m => m.term
  | .pointer3 m => m.term
  | .token3 m => m.term
  | .bounds3 m => m.term
  | .control m => record "Control" [sessionField m.sessionId, ("values", floatsText m.values)]
  | .data m =>
    record "Data"
      [sessionField m.sessionId, ("mime", quoted m.mime), ("payload", m.content.term)]
  | .signal m =>
    record "Signal"
      [ sessionField m.sessionId, ("component_id", toString m.componentId),
        ("targets", idsText m.targets) ]
  | .raw m =>
    record "Raw"
      [ sessionField m.sessionId, ("sample_width", Decimal.exact m.spacing),
        ("samples", bytesTerm m.samples) ]
  | .convexHull m => m.term "ConvexHull"
  | .outerContour m => m.term "OuterContour"
  | .innerContour m =>
    record "InnerContour"
      [ sessionField m.sessionId,
        ("contours", bracketed (m.contours.map fun c => bracketed (c.map Point2.term))) ]
  | .skeleton2 m => m.term Point2.term
  | .skeleton3 m => m.term Point3.term
  | .skeletonVolume m =>
    record "SkeletonVolume" [sessionField m.sessionId, ("radii", floatsText m.radii)]
  | .area m =>
    record "Area" [sessionField m.sessionId, ("spans", bracketed (m.spans.map Span.term))]
  | .container m =>
    record "ContainerAssociation"
      [ sessionField m.sessionId, ("slot", toString m.slot), ("contained", idsText m.contained) ]
  | .linkStar m => m.term "LinkAssociation"
  | .linkChain m => m.term "LinkedListAssociation"
  | .linkTree m => m.term "LinkedTreeAssociation"
  | .frame m => m.term
  | .alive ids => record "AliveMessage" [("session_ids", idsText ids)]
  | .aliveAssociation ids => record "AliveAssociation" [("session_ids", idsText ids)]
  | .generic m =>
    record "GenericMessage" [("path", quoted m.address), ("args", bracketed (argTerms m.args))]

/-- The kind of a message applied to its record. -/
def term (m : Message) : String :=
  applied m.kind.name [m.recordTerm]

end Message

end Tangible
