import Tangible.Message.Kind
import Tangible.Message.Planar
import Tangible.Message.Spatial
import Tangible.Message.Frame
import Tangible.Message.Payload
import Tangible.Message.Outline
import Tangible.Message.Link
import Tangible.Osc.Packet

/-!
# Messages

A message of the catalog or a generic one, with its address, its arguments and its text.
`Kind.read?` reads the arguments of a kind; it accepts a list of arguments as a whole or not at
all.

`==` compares floating-point numbers as numbers and graphs up to isomorphism.
-/

namespace Tangible

open Osc (Arg)

inductive Message where
  | pointer (m : Pointer)
  | token (m : Token)
  | bounds (m : Bounds)
  | symbol (m : Symbol)
  | pointer3 (m : Pointer3)
  | token3 (m : Token3)
  | bounds3 (m : Bounds3)
  | control (m : Control)
  | data (m : Data)
  | signal (m : Signal)
  | raw (m : RawSamples)
  | convexHull (m : Outline)
  | outerContour (m : Outline)
  | innerContour (m : InnerContours)
  | skeleton2 (m : Skeleton Point2)
  | skeleton3 (m : Skeleton Point3)
  | skeletonVolume (m : Radii)
  | area (m : Area)
  | container (m : Container)
  | linkStar (m : Links .star)
  | linkChain (m : Links .chain)
  | linkTree (m : Links .trunkTree)
  | frame (m : Frame)
  | alive (sessionIds : List UInt32)
  | aliveAssociation (sessionIds : List UInt32)
  | generic (m : Osc.Message)
deriving BEq

namespace Message

def kind : Message → Kind
  | .pointer _ => .pointer
  | .token _ => .token
  | .bounds _ => .bounds
  | .symbol _ => .symbol
  | .pointer3 _ => .pointer3
  | .token3 _ => .token3
  | .bounds3 _ => .bounds3
  | .control _ => .control
  | .data _ => .data
  | .signal _ => .signal
  | .raw _ => .raw
  | .convexHull _ => .convexHull
  | .outerContour _ => .outerContour
  | .innerContour _ => .innerContour
  | .skeleton2 _ => .skeleton2
  | .skeleton3 _ => .skeleton3
  | .skeletonVolume _ => .skeletonVolume
  | .area _ => .area
  | .container _ => .container
  | .linkStar _ => .linkStar
  | .linkChain _ => .linkChain
  | .linkTree _ => .linkTree
  | .frame _ => .frame
  | .alive _ => .alive
  | .aliveAssociation _ => .aliveAssociation
  | .generic _ => .generic

def address : Message → String
  | .generic m => m.address
  | m => m.kind.address?.getD ""

def args : Message → List Arg
  | .pointer m => m.args
  | .token m => m.args
  | .bounds m => m.args
  | .symbol m => m.args
  | .pointer3 m => m.args
  | .token3 m => m.args
  | .bounds3 m => m.args
  | .control m => m.args
  | .data m => m.args
  | .signal m => m.args
  | .raw m => m.args
  | .convexHull m => m.args
  | .outerContour m => m.args
  | .innerContour m => m.args
  | .skeleton2 m => m.args
  | .skeleton3 m => m.args
  | .skeletonVolume m => m.args
  | .area m => m.args
  | .container m => m.args
  | .linkStar m => m.args
  | .linkChain m => m.args
  | .linkTree m => m.args
  | .frame m => m.args
  | .alive ids => Run.ofIds ids
  | .aliveAssociation ids => Run.ofIds ids
  | .generic m => m.args

/-- The message as it goes on the wire. -/
def toOsc (m : Message) : Osc.Message := ⟨m.address, m.args⟩

/-- What follows the address in the text of a message. -/
def body : Message → String
  | .pointer m => m.text
  | .token m => m.text
  | .bounds m => m.text
  | .symbol m => m.text
  | .pointer3 m => m.text
  | .token3 m => m.text
  | .bounds3 m => m.text
  | .control m => m.text
  | .data m => m.text
  | .signal m => m.text
  | .raw m => m.text
  | .convexHull m => m.text
  | .outerContour m => m.text
  | .innerContour m => m.text
  | .skeleton2 m => m.text
  | .skeleton3 m => m.text
  | .skeletonVolume m => m.text
  | .area m => m.text
  | .container m => m.text
  | .linkStar m => m.text
  | .linkChain m => m.text
  | .linkTree m => m.text
  | .frame m => m.text
  | .alive ids => idsText ids
  | .aliveAssociation ids => idsText ids
  | .generic m => "," ++ Osc.tags m.args

def text (m : Message) : String :=
  m.address ++ " " ++ m.body

/-! ## Sessions and identities -/

/-- The session of a message. Frames, alive lists and generic messages have none. -/
def sessionId? : Message → Option UInt32
  | .pointer m => some m.identity.sessionId
  | .token m => some m.identity.sessionId
  | .bounds m => some m.sessionId
  | .symbol m => some m.identity.sessionId
  | .pointer3 m => some m.identity.sessionId
  | .token3 m => some m.identity.sessionId
  | .bounds3 m => some m.sessionId
  | .control m => some m.sessionId
  | .data m => some m.sessionId
  | .signal m => some m.sessionId
  | .raw m => some m.sessionId
  | .convexHull m => some m.sessionId
  | .outerContour m => some m.sessionId
  | .innerContour m => some m.sessionId
  | .skeleton2 m => some m.sessionId
  | .skeleton3 m => some m.sessionId
  | .skeletonVolume m => some m.sessionId
  | .area m => some m.sessionId
  | .container m => some m.sessionId
  | .linkStar m => some m.sessionId
  | .linkChain m => some m.sessionId
  | .linkTree m => some m.sessionId
  | .frame _ | .alive _ | .aliveAssociation _ | .generic _ => none

/-- The anchor of a link graph takes the new session id too. -/
def withSessionId? (m : Message) (id : UInt32) : Option Message :=
  match m with
  | .pointer m => some (.pointer { m with identity.sessionId := id })
  | .token m => some (.token { m with identity.sessionId := id })
  | .bounds m => some (.bounds { m with sessionId := id })
  | .symbol m => some (.symbol { m with identity.sessionId := id })
  | .pointer3 m => some (.pointer3 { m with identity.sessionId := id })
  | .token3 m => some (.token3 { m with identity.sessionId := id })
  | .bounds3 m => some (.bounds3 { m with sessionId := id })
  | .control m => some (.control { m with sessionId := id })
  | .data m => some (.data { m with sessionId := id })
  | .signal m => some (.signal { m with sessionId := id })
  | .raw m => some (.raw { m with sessionId := id })
  | .convexHull m => some (.convexHull { m with sessionId := id })
  | .outerContour m => some (.outerContour { m with sessionId := id })
  | .innerContour m => some (.innerContour { m with sessionId := id })
  | .skeleton2 m => some (.skeleton2 { m with sessionId := id })
  | .skeleton3 m => some (.skeleton3 { m with sessionId := id })
  | .skeletonVolume m => some (.skeletonVolume { m with sessionId := id })
  | .area m => some (.area { m with sessionId := id })
  | .container m => some (.container { m with sessionId := id })
  | .linkStar m => some (.linkStar (m.withSessionId id))
  | .linkChain m => some (.linkChain (m.withSessionId id))
  | .linkTree m => some (.linkTree (m.withSessionId id))
  | .frame _ | .alive _ | .aliveAssociation _ | .generic _ => none

/-- The identity of a component that has a type, a user and a component id. -/
def identity? : Message → Option Identity
  | .pointer m => some m.identity
  | .token m => some m.identity
  | .symbol m => some m.identity
  | .pointer3 m => some m.identity
  | .token3 m => some m.identity
  | _ => none

def withIdentity? (m : Message) (identity : Identity) : Option Message :=
  match m with
  | .pointer m => some (.pointer { m with identity })
  | .token m => some (.token { m with identity })
  | .symbol m => some (.symbol { m with identity })
  | .pointer3 m => some (.pointer3 { m with identity })
  | .token3 m => some (.token3 { m with identity })
  | _ => none

def isFrame (m : Message) : Bool := m.kind = .frame

def isAlive (m : Message) : Bool := m.kind = .alive

end Message

namespace Kind

/-- Reads the arguments of a kind. -/
def read? (kind : Kind) (args : List Arg) : Option Message :=
  match kind with
  | .pointer => (Pointer.ofArgs? args).map .pointer
  | .token => (Token.ofArgs? args).map .token
  | .bounds => (Bounds.ofArgs? args).map .bounds
  | .symbol => (Symbol.ofArgs? args).map .symbol
  | .pointer3 => (Pointer3.ofArgs? args).map .pointer3
  | .token3 => (Token3.ofArgs? args).map .token3
  | .bounds3 => (Bounds3.ofArgs? args).map .bounds3
  | .control => (Control.ofArgs? args).map .control
  | .data => (Data.ofArgs? args).map .data
  | .signal => (Signal.ofArgs? args).map .signal
  | .raw => (RawSamples.ofArgs? args).map .raw
  | .convexHull => (Outline.ofArgs? args).map .convexHull
  | .outerContour => (Outline.ofArgs? args).map .outerContour
  | .innerContour => (InnerContours.ofArgs? args).map .innerContour
  | .skeleton2 => (Skeleton.ofArgs? args).map .skeleton2
  | .skeleton3 => (Skeleton.ofArgs? args).map .skeleton3
  | .skeletonVolume => (Radii.ofArgs? args).map .skeletonVolume
  | .area => (Area.ofArgs? args).map .area
  | .container => (Container.ofArgs? args).map .container
  | .linkStar => (Links.ofArgs? args).map .linkStar
  | .linkChain => (Links.ofArgs? args).map .linkChain
  | .linkTree => (Links.ofArgs? args).map .linkTree
  | .frame => (Frame.ofArgs? args).map .frame
  | .alive => (Run.ids? args).map .alive
  | .aliveAssociation => (Run.ids? args).map .aliveAssociation
  | .generic => none

/-- The message of a kind with nothing filled in. -/
def blank : Kind → Message
  | .pointer => .pointer {}
  | .token => .token {}
  | .bounds => .bounds {}
  | .symbol => .symbol {}
  | .pointer3 => .pointer3 {}
  | .token3 => .token3 {}
  | .bounds3 => .bounds3 {}
  | .control => .control {}
  | .data => .data {}
  | .signal => .signal {}
  | .raw => .raw {}
  | .convexHull => .convexHull {}
  | .outerContour => .outerContour {}
  | .innerContour => .innerContour {}
  | .skeleton2 => .skeleton2 {}
  | .skeleton3 => .skeleton3 {}
  | .skeletonVolume => .skeletonVolume {}
  | .area => .area {}
  | .container => .container {}
  | .linkStar => .linkStar {}
  | .linkChain => .linkChain {}
  | .linkTree => .linkTree {}
  | .frame => .frame {}
  | .alive => .alive []
  | .aliveAssociation => .aliveAssociation []
  | .generic => .generic ⟨"", []⟩

/-- Reads a wire message whose address is the one of the kind. -/
def parse? (kind : Kind) (m : Osc.Message) : Option Message :=
  if kind.address? = some m.address then kind.read? m.args else none

end Kind

end Tangible
