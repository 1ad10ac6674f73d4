import Tangible.Network.Server

/-!
# Servers at a transport

A server hands its packets to a transport, which may fail. Here a send is what it is in the program:
steps one after the other, each of which may end it, on a server and a transport that keep what was
assigned until then.
-/

namespace Tangible

/-- How a transport with states in `T` takes a packet. A failing transport may change too. -/
abbrev Transmit (T ε : Type) := T → List UInt8 → Except ε Unit × T

inductive SendFailure (ε : Type) where
  /-- An adaptor or the check of the output ended the send. -/
  | refused (cause : SendError)
  | transport (cause : ε)

structure Endpoint (T : Type) where
  server : Server
  transport : T

/-- Steps on an endpoint, which a failure ends. -/
abbrev Sending (T ε : Type) := ExceptT (SendFailure ε) (StateM (Endpoint T))

namespace Sending

variable {T ε α : Type}

/-- What the steps come to, and the endpoint behind them. -/
def on (steps : Sending T ε α) (e : Endpoint T) : Except (SendFailure ε) α × Endpoint T :=
  StateT.run (ExceptT.run steps) e

def accept : Except SendError α → Sending T ε α
  | .ok a => pure a
  | .error cause => throw (.refused cause)

/-- Encodes a bundle and hands it to the transport. -/
def commit (transmit : Transmit T ε) (b : Bundle) : Sending T ε Unit := do
  let (result, transport) := transmit (← get).transport b.encode
  modify ({ · with transport })
  match result with
  | .ok () => pure ()
  | .error cause => throw (.transport cause)

end Sending

namespace Endpoint

variable {T ε : Type}

open Sending

def send (transmit : Transmit T ε) (now : Timetag) : Sending T ε Bundle := do
  let prepared := (← get).server.prepare now
  let b ← accept ((← get).server.runAttached prepared)
  accept (Server.checkOutput b)
  commit transmit b
  modify fun e => { e with server.pending := [] }
  modify fun e => { e with server.frames := e.server.frames.advance }
  return b

/-! ## Calls -/

inductive Call where
  | append (m : Message)
  | template (frame : Frame)
  | register (id : UInt32)
  /-- Registers the next id that is free. -/
  | registerNext
  | unregister (id : UInt32)
  | clearSessions
  | attach (a : Attachment)
  | detach (id : Nat)
  /-- Processors have states of their own, so each may work differently from here on. -/
  | retune (processor : Nat → Processor)
  | paranoid (on : Bool)
  | send (now : Timetag)

/-- The server behind a call that sends nothing. A message that is refused leaves it alone. -/
def setUp (s : Server) : Call → Server
  | .append m => (s.append m).toOption.getD s
  | .template frame => { s with template := frame }
  | .register id => { s with sessions := s.sessions.register id }
  | .registerNext => { s with sessions := s.sessions.register s.sessions.nextId }
  | .unregister id => { s with sessions := s.sessions.unregister id }
  | .clearSessions => { s with sessions := s.sessions.clear }
  | .attach a => s.attach a
  | .detach id => s.detach id
  | .retune processor =>
    { s with attached := s.attached.map fun a => { a with processor := processor a.id } }
  | .paranoid on => { s with paranoid := on }
  | .send _ => s

/-- What a call comes to if it is a send, and the endpoint behind it. -/
def call (transmit : Transmit T ε) (e : Endpoint T) :
    Call → Option (Except (SendFailure ε) Bundle) × Endpoint T
  | .send now => ((send transmit now).on e).map some id
  | c => (none, { e with server := setUp e.server c })

end Endpoint

end Tangible
