import Tangible.Network.Chain
import Tangible.Network.Receiver

/-!
# Clients

A client reads packets from its inbox and gathers the accepted bundles on a stack, which its
listeners are shown. Every load begins with an empty stack. A load that accepts nothing tells
nobody, so the stacks behind the client then remain as they were. What a call comes to stands beside
the client that it leaves, also where it fails.
-/

namespace Tangible

structure Client where
  receiver : Receiver := {}
  inbox : List Datagram := []
  stack : List Cell := []
  listeners : Listeners := {}
  chain : Chain := {}

namespace Client

def ofConfig (c : Config.Client) : Client := { receiver := .ofConfig c }

def lastFrameId (c : Client) : UInt32 := c.receiver.assembly.lastFrameId

def bundles (c : Client) : List Bundle := c.chain.bundles c.stack

/-- Queues a packet behind those that wait. -/
def deliver (c : Client) (packet : Datagram) : Client :=
  { c with inbox := c.inbox ++ [packet] }

def attach (c : Client) (l : Listener) : Client :=
  { c with listeners := c.listeners.add l }

def detach (c : Client) (l : Listener) : Client :=
  { c with listeners := c.listeners.remove l }

def purge (c : Client) : Client := { c with stack := [] }

/-- Puts bundles on the stack. -/
def pushAll (c : Client) (bundles : List Bundle) : Client :=
  let (cells, store) := c.chain.store.addAll bundles
  { c with stack := c.stack ++ cells, chain := { c.chain with store } }

/-- Takes in one packet apart from the inbox and counts the bundles that it completes. -/
def process (c : Client) (packet : Datagram) : Except Error Nat × Client :=
  match c.receiver.receive packet with
  | (.ok bundles, receiver) => (.ok bundles.length, { c with receiver }.pushAll bundles)
  | (.error e, receiver) => (.error e, { c with receiver })

/-- Tells the listeners of the current stack. -/
def notifyAll (c : Client) : Except Reentry Unit × Client :=
  let (result, chain) := c.chain.notifyAll c.stack c.listeners
  (result, { c with chain })

/-- Reads the inbox until `count` bundles are accepted, or all of it where `count` is zero, and
says whether there were any. -/
def load (c : Client) (count : Nat) : Except Reentry Bool × Client :=
  let limit := if count = 0 then none else some count
  let gathered := c.receiver.gather limit c.inbox
  let c := { c with receiver := gathered.receiver, inbox := gathered.inbox }
  let c := c.purge.pushAll gathered.bundles
  if gathered.bundles.isEmpty then (.ok false, c)
  else
    let (result, c) := c.notifyAll
    (result.map fun () => true, c)

/-- The bundle at a place of the stack; it is taken with those before it. -/
def take? (c : Client) (place : Nat) : Except Error (Bundle × Client) :=
  (Stack.take? c.stack place).map fun (cell, rest) =>
    (c.chain.store.read cell, { c with stack := rest })

/-- The newest bundle; it is taken with all the others. -/
def latest? (c : Client) : Option (Bundle × Client) :=
  (Stack.latest? c.stack).map fun (cell, rest) =>
    (c.chain.store.read cell, { c with stack := rest })

/-- The client with nothing waiting. -/
def term (c : Client) : String :=
  let empty := Text.record "RefCell" [("value", "[]")]
  Text.record "OscClient"
    [ ("transport", Text.record "MemoryTransport" [("inbox", empty), ("outbox", empty)]),
      ("stack", toString c.stack.length), ("listeners", toString c.listeners.size),
      ("last_frame_id", toString c.lastFrameId) ]

end Client

end Tangible
