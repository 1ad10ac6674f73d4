import Tangible.Config.Basic
import Tangible.Network.Assembly

/-!
# Receivers

A receiver turns packets into accepted bundles. A packet that cannot be decoded is an error and
changes nothing. `gather` works through a queue of packets until enough bundles are accepted and
skips the packets that are errors.
-/

namespace Tangible

/-- The bytes of one datagram. -/
abbrev Datagram := List UInt8

structure Receiver where
  registry : Registry := .defaults
  /-- Whether messages of unknown or disabled addresses are kept as generic messages. -/
  acceptUnknown : Bool := false
  assembly : Assembly := {}

namespace Receiver

def ofConfig (c : Config.Client) : Receiver :=
  { registry := c.registry, acceptUnknown := c.acceptUnknown }

/-- The messages of a packet that the registry can decode. -/
def messages? (r : Receiver) (packet : Datagram) : Except Error (List Message) :=
  (decodePacket packet).map (r.registry.decodeAll · r.acceptUnknown)

/-- Takes in one packet and returns the bundles that it completes. -/
def receive (r : Receiver) (packet : Datagram) : Except Error (List Bundle) × Receiver :=
  match r.messages? packet with
  | .ok messages =>
    let (bundles, assembly) := r.assembly.feedAll messages
    (.ok bundles, { r with assembly })
  | .error e => (.error e, r)

/-- What was accepted from a queue, what is left of it, and the receiver afterwards. -/
structure Gathering where
  bundles : List Bundle
  inbox : List Datagram
  receiver : Receiver

/-- Takes packets from the queue while bundles are wanted. Without a limit the queue is emptied. A
packet may complete more bundles than are still wanted; all of them are accepted. -/
def gather (r : Receiver) (limit : Option Nat) : List Datagram → Gathering
  | [] => ⟨[], [], r⟩
  | packet :: inbox =>
    if limit = some 0 then ⟨[], packet :: inbox, r⟩
    else
      match r.receive packet with
      | (.error _, r) => r.gather limit inbox
      | (.ok bundles, r) =>
        let later := r.gather (limit.map (· - bundles.length)) inbox
        { later with bundles := bundles ++ later.bundles }

end Receiver

end Tangible
