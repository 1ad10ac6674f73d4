import Tangible.Bundle.Processor
import Tangible.Config.Basic
import Tangible.Session

/-!
# Servers

A server queues messages and sends them as one bundle, between a frame with the next id and the
list of registered sessions. Attached processors transform the bundle before it is checked and
encoded. A send that fails changes nothing, so the same messages can be sent again.
-/

namespace Tangible

inductive SendError where
  /-- The server makes alive lists from its sessions. -/
  | aliveRejected
  | adaptor (place : Nat) (cause : Error)
  | core (cause : Error)
deriving DecidableEq, Repr

def SendError.text : SendError → String
  | .aliveRejected => "alive messages cannot be appended"
  | .adaptor place cause => s!"adaptor failed: adaptor {place}: {cause.text}"
  | .core cause => "core error: " ++ cause.text

/-- A processor under a number that tells it apart from others that do the same. -/
structure Attachment where
  id : Nat
  processor : Processor

structure Server where
  /-- Whether a failing processor stops a send instead of being skipped. -/
  paranoid : Bool := false
  sessions : Sessions := {}
  frames : FrameCounter := {}
  /-- The frame of every bundle apart from its id and its time. -/
  template : Frame := {}
  pending : List Message := []
  attached : List Attachment := []

namespace Server

def ofConfig (c : Config.Server) : Server :=
  { paranoid := c.paranoid, template := c.frame }

/-! ## Setting up -/

/-- Queues a message. A frame becomes the template instead, and an alive list is refused. -/
def append (s : Server) : Message → Except SendError Server
  | .alive _ => .error .aliveRejected
  | .frame frame => .ok { s with template := frame }
  | m => .ok { s with pending := s.pending ++ [m] }

def isAttached (s : Server) (id : Nat) : Bool :=
  s.attached.any (·.id = id)

/-- Attaches a processor behind the others unless its number is there already. -/
def attach (s : Server) (a : Attachment) : Server :=
  if s.isAttached a.id then s else { s with attached := s.attached ++ [a] }

def detach (s : Server) (id : Nat) : Server :=
  { s with attached := s.attached.filter (·.id ≠ id) }

/-! ## Sending -/

/-- The frame, the queued messages and the alive list of one point in time. -/
def prepare (s : Server) (now : Timetag) : Bundle :=
  let frame := { s.template with id := s.frames.next, time := now }
  ⟨.frame frame :: s.pending ++ [.alive s.sessions.ids]⟩

/-- Runs processors one after the other; `place` is the number of those that ran before. A failing
one is skipped, or it ends the run if the run is paranoid. -/
def runFrom (paranoid : Bool) (place : Nat) :
    List Attachment → Bundle → Except SendError Bundle
  | [], b => .ok b
  | a :: rest, b =>
    match a.processor.run b with
    | .ok output => runFrom paranoid (place + 1) rest output
    | .error e =>
      if paranoid then .error (.adaptor place e) else runFrom paranoid (place + 1) rest b

def runAttached (s : Server) (b : Bundle) : Except SendError Bundle :=
  runFrom s.paranoid 0 s.attached b

def checkOutput (b : Bundle) : Except SendError Unit :=
  b.checkOutput.mapError .core

/-- What a send put on the wire, and the server afterwards. -/
structure Sent where
  bundle : Bundle
  packet : List UInt8
  server : Server

def send (s : Server) (now : Timetag) : Except SendError Sent := do
  let b ← s.runAttached (s.prepare now)
  checkOutput b
  return ⟨b, b.encode, { s with pending := [], frames := s.frames.advance }⟩

end Server

end Tangible
