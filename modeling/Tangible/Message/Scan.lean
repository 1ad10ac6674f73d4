import Tangible.Message.Basic
import Tangible.Osc.Cursor

/-!
# Reading messages one argument after the other

A `Scan` moves a cursor over the arguments of a message. It stops at the first argument that does
not fit. `Kind.scan` is how a message of a kind is read on the way in: its fields in the order of the
wire, and loops that go on until the arguments run out. Graphs grow while their entries are read.

A scan does the work of the reader that takes a list of arguments as a whole: `Kind.scan?` and
`Kind.read?` are the same.
-/

namespace Tangible

open Osc (Arg Cursor)

abbrev Scan := OptionT (StateM Cursor)

namespace Scan

variable {α N E : Type}

/-- What a scan makes of the arguments of a message. -/
def of? (scan : Scan α) (args : List Arg) : Option α := (scan.run.run ⟨args⟩).1

/-! ## Single arguments -/

def uint : Scan UInt32 := .mk Cursor.uint

def float : Scan Single := .mk Cursor.float

def string : Scan String := .mk Cursor.string

def blob : Scan (List UInt8) := .mk Cursor.blob

def time : Scan Timetag := .mk Cursor.time

def bool : Scan Bool := .mk Cursor.bool

def skip : Scan Arg := .mk Cursor.skip

def separator : Scan Bool := .lift Cursor.separator

def remaining : Scan Nat := Cursor.remaining <$> get

def isEmpty : Scan Bool := Cursor.isEmpty <$> get

/-- Fails if arguments are left over. -/
def finish : Scan Unit := do
  guard (← get).finish

/-- Something that is worked out on the way. -/
def lift (a : Option α) : Scan α := .mk (pure a)

/-! ## Loops -/

/-- Reads as long as there is a next argument to go on with, at most `count` times. -/
def times (goesOn : Arg → Bool) (read : Scan α) : (count : Nat) → Scan (List α)
  | 0 => pure []
  | count + 1 => do
    if (← get).rest.head?.any goesOn then
      let a ← read
      let as ← times goesOn read count
      pure (a :: as)
    else pure []

/-- Every round takes an argument, so there are never more rounds than arguments. -/
def repeatWhile (goesOn : Arg → Bool) (read : Scan α) : Scan (List α) := do
  times goesOn read (← remaining)

def untilEmpty (read : Scan α) : Scan (List α) :=
  repeatWhile (fun _ => true) read

def restUints : Scan (List UInt32) := .mk Cursor.restUints

def restFloats : Scan (List Single) := .mk Cursor.restFloats

/-! ## Components -/

def identity : Scan Identity := do
  let session ← uint
  let typeUser ← uint
  let component ← uint
  pure (.ofWords session typeUser component)

def point2 : Scan Point2 := do
  let x ← float
  let y ← float
  pure ⟨x, y⟩

def point3 : Scan Point3 := do
  let x ← float
  let y ← float
  let z ← float
  pure ⟨x, y, z⟩

/-- Something that takes `count` arguments, or nothing where none is left. -/
def optional (count : Nat) (read : Scan α) : Scan (Option α) := do
  let left ← remaining
  if left = 0 then pure none
  else if left = count then some <$> read
  else failure

def motion2 : Scan Motion2 := do
  let velocity ← point2
  let angular ← float
  let acceleration ← float
  let turning ← float
  pure ⟨velocity.x, velocity.y, angular, acceleration, turning⟩

def motion3 : Scan Motion3 := do
  let velocity ← point3
  let angular ← float
  let acceleration ← float
  let turning ← float
  pure ⟨velocity.x, velocity.y, velocity.z, angular, acceleration, turning⟩

def pointer : Scan Pointer := do
  let identity ← identity
  let position ← point2
  let angle ← float
  let shear ← float
  let radius ← float
  let pressure ← float
  let motion ← optional 5 motion2
  finish
  pure { identity, position, angle, shear, radius, pressure, motion }

def token : Scan Token := do
  let identity ← identity
  let position ← point2
  let angle ← float
  let motion ← optional 5 motion2
  finish
  pure { identity, position, angle, motion }

def bounds : Scan Bounds := do
  let sessionId ← uint
  let position ← point2
  let angle ← float
  let width ← float
  let height ← float
  let area ← float
  let motion ← optional 5 motion2
  finish
  pure { sessionId, position, angle, width, height, area, motion }

def symbol : Scan Symbol := do
  let identity ← identity
  let group ← string
  let data ← string
  finish
  pure { identity, group, data }

def pointer3 : Scan Pointer3 := do
  let identity ← identity
  let position ← point3
  let axis ← point3
  let radius ← float
  let motion ← optional 6 motion3
  finish
  pure { identity, position, axis, radius, motion }

def token3 : Scan Token3 := do
  let identity ← identity
  let position ← point3
  let angle ← float
  let axis ← point3
  let motion ← optional 6 motion3
  finish
  pure { identity, position, angle, axis, motion }

def bounds3 : Scan Bounds3 := do
  let sessionId ← uint
  let position ← point3
  let angle ← float
  let axis ← point3
  let width ← float
  let height ← float
  let depth ← float
  let volume ← float
  let motion ← optional 6 motion3
  finish
  pure { sessionId, position, angle, axis, width, height, depth, volume, motion }

/-! ## Payloads and frames -/

def data : Scan Data := do
  let sessionId ← uint
  let mime ← string
  let content ← match ← skip with
    | .string text => pure (.plain text)
    | .blob bytes => pure (.binary bytes)
    | _ => failure
  finish
  pure { sessionId, mime, content }

def signal : Scan Signal := do
  let sessionId ← uint
  let componentId ← uint
  let targets ← restUints
  pure { sessionId, componentId, targets }

def raw : Scan RawSamples := do
  let sessionId ← uint
  let spacing ← float
  let samples ← blob
  finish
  pure { sessionId, spacing, samples }

def control : Scan Control := do
  let sessionId ← uint
  let values ← restFloats
  pure { sessionId, values }

def container : Scan Container := do
  let sessionId ← uint
  let slot ← uint
  let contained ← restUints
  pure { sessionId, slot, contained }

def source (frame : Frame) : Scan Frame := do
  let application ← string
  let address ← uint
  let instanceId ← uint
  let dimension ← uint
  pure
    { frame with
      application, address, instanceId
      width := upperHalf dimension
      height := lowerHalf dimension }

/-- The description of the source may be missing. -/
def described (frame : Frame) : Scan Frame := do
  if ← isEmpty then pure frame else source frame

def frame : Scan Frame := do
  let id ← uint
  let time ← time
  let frame ← described { id, time }
  finish
  pure frame

/-! ## Outlines -/

/-- Points go on up to the end or a truth value. -/
def isCoordinate : Arg → Bool
  | .bool _ => false
  | _ => true

def points : Scan (List Point2) :=
  repeatWhile isCoordinate point2

def outline : Scan Outline := do
  let sessionId ← uint
  let points ← points
  finish
  pure { sessionId, points }

def isSeparator : Arg → Bool
  | .bool true => true
  | _ => false

/-- The points behind a separator. -/
def contour : Scan (List Point2) := do
  guard (← separator)
  points

def contours : Scan (List (List Point2)) := do
  if ← isEmpty then pure []
  else
    let first ← points
    let others ← repeatWhile isSeparator contour
    pure (first :: others)

def innerContours : Scan InnerContours := do
  let sessionId ← uint
  let contours ← contours
  finish
  pure { sessionId, contours }

def radii : Scan Radii := do
  let sessionId ← uint
  let radii ← restFloats
  pure { sessionId, radii }

def span : Scan Span := do
  let x ← float
  let y ← float
  let width ← float
  pure { x, y, width }

def area : Scan Area := do
  let sessionId ← uint
  let spans ← untilEmpty span
  pure { sessionId, spans }

/-! ## Graphs -/

/-- Grows a tree, one node for each entry that is read. The parent of the next node is chosen among
the nodes that are there. -/
def grow (parent : List NodeId → Scan NodeId) (entry : Scan (N × E)) :
    (count : Nat) → (placed : List NodeId) → Graph N E → Scan (Graph N E)
  | 0, _, g => pure g
  | count + 1, placed, g => do
    if ← isEmpty then pure g
    else
      let above ← parent placed
      let (value, edge) ← entry
      let (node, g) := g.createNode value
      let (_, g) ← lift (g.createEdge? above node edge)
      grow parent entry count (placed ++ [node]) g

def growFrom (origin : N) (parent : List NodeId → Scan NodeId) (entry : Scan (N × E)) :
    Scan (Graph N E) := do
  let (node, g) := Graph.createNode .empty origin
  grow parent entry (← remaining) [node] g

/-- The last node, unless a separator names another one by its place. -/
def named (placed : List NodeId) : Scan NodeId := do
  if ← separator then
    let place ← uint
    lift placed[place.toNat]?
  else lift placed.getLast?

/-- The point of a joint. Bones carry nothing. -/
def joint {P : Type} (point : Scan P) : Scan (P × Unit) := do
  let p ← point
  pure (p, ())

def skeleton {P : Type} (point : Scan P) : Scan (Skeleton P) := do
  let sessionId ← uint
  if ← isEmpty then pure { sessionId }
  else
    let origin ← point
    let graph ← growFrom origin named (joint point)
    lift (Skeleton.withGraph { sessionId } graph).toOption

def link : Scan (UInt32 × Ports) := do
  let session ← uint
  let ports ← uint
  pure (session, .ofPacked ports)

/-- The leaves of a star hang on its center, those of a chain on the one before. -/
def parentOf : Topology → List NodeId → Scan NodeId
  | .star, placed => lift placed.head?
  | .chain, placed => lift placed.getLast?
  | .trunkTree, placed => named placed

def linkGraph (shape : Topology) (session : UInt32) : Scan LinkGraph := do
  if ← isEmpty then pure .empty else growFrom session (parentOf shape) link

def links {shape : Topology} : Scan (Links shape) := do
  let sessionId ← uint
  let physical ← bool
  let graph ← linkGraph shape sessionId
  lift (Links.withGraph { sessionId, physical } graph).toOption

end Scan

namespace Kind

/-- Scans the arguments of a kind. -/
def scan : Kind → Scan Message
  | .pointer => .pointer <$> Scan.pointer
  | .token => .token <$> Scan.token
  | .bounds => .bounds <$> Scan.bounds
  | .symbol => .symbol <$> Scan.symbol
  | .pointer3 => .pointer3 <$> Scan.pointer3
  | .token3 => .token3 <$> Scan.token3
  | .bounds3 => .bounds3 <$> Scan.bounds3
  | .control => .control <$> Scan.control
  | .data => .data <$> Scan.data
  | .signal => .signal <$> Scan.signal
  | .raw => .raw <$> Scan.raw
  | .convexHull => .convexHull <$> Scan.outline
  | .outerContour => .outerContour <$> Scan.outline
  | .innerContour => .innerContour <$> Scan.innerContours
  | .skeleton2 => .skeleton2 <$> Scan.skeleton Scan.point2
  | .skeleton3 => .skeleton3 <$> Scan.skeleton Scan.point3
  | .skeletonVolume => .skeletonVolume <$> Scan.radii
  | .area => .area <$> Scan.area
  | .container => .container <$> Scan.container
  | .linkStar => .linkStar <$> Scan.links
  | .linkChain => .linkChain <$> Scan.links
  | .linkTree => .linkTree <$> Scan.links
  | .frame => .frame <$> Scan.frame
  | .alive => .alive <$> Scan.restUints
  | .aliveAssociation => .aliveAssociation <$> Scan.restUints
  | .generic => failure

def scan? (kind : Kind) (args : List Arg) : Option Message :=
  kind.scan.of? args

end Kind

end Tangible
