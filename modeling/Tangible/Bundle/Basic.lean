import Tangible.Error
import Tangible.Message.Basic
import Tangible.Osc.Encode

/-!
# Bundles

A bundle lists the messages of one point in time. On its way out it opens with its only frame and
closes with its only alive list, which `checkOutput` verifies. On the wire it is one packet with
the time of its frame.
-/

namespace Tangible

structure Bundle where
  messages : List Message := []
deriving BEq

namespace Bundle

def size (b : Bundle) : Nat := b.messages.length

/-! ## Access -/

/-- The frame that the bundle opens with. -/
def frame? (b : Bundle) : Option Frame :=
  match b.messages.head? with
  | some (.frame frame) => some frame
  | _ => none

/-- The alive list that the bundle closes with. -/
def alive? (b : Bundle) : Option (List UInt32) :=
  match b.messages.getLast? with
  | some (.alive ids) => some ids
  | _ => none

/-- The time of the frame. A bundle without one takes effect immediately. -/
def time (b : Bundle) : Timetag :=
  match b.frame? with
  | some frame => frame.time
  | none => .immediately

/-- The messages of a kind in order. -/
def ofKind (b : Bundle) (kind : Kind) : List Message :=
  b.messages.filter (·.kind = kind)

/-- The place among all messages of the message with the given number among those of its kind. -/
def placeOfKind? (b : Bundle) (kind : Kind) (number : Nat) : Option Nat :=
  ((b.messages.zipIdx.filter (·.1.kind = kind)).map (·.2))[number]?

def text (b : Bundle) : String :=
  String.intercalate "\n" (b.messages.map Message.text)

/-! ## Changes -/

def push (b : Bundle) (m : Message) : Bundle := ⟨b.messages ++ [m]⟩

def insert? (b : Bundle) (place : Nat) (m : Message) : Except Error Bundle :=
  if place ≤ b.size then .ok ⟨b.messages.insertIdx place m⟩
  else .error (.outOfRange place b.size)

def remove? (b : Bundle) (place : Nat) : Except Error (Message × Bundle) :=
  match b.messages[place]? with
  | some m => .ok (m, ⟨b.messages.eraseIdx place⟩)
  | none => .error (.outOfRange place b.size)

/-- Puts a message in the place of another. -/
def replace (b : Bundle) (place : Nat) (m : Message) : Bundle := ⟨b.messages.set place m⟩

def retain (b : Bundle) (keep : Message → Bool) : Bundle := ⟨b.messages.filter keep⟩

/-! ## Framing -/

def checkOutput (b : Bundle) : Except Error Unit :=
  let frames := b.messages.countP Message.isFrame
  let alives := b.messages.countP Message.isAlive
  if b.frame?.isNone then .error (.malformed "bundle does not open with a frame")
  else if b.alive?.isNone then .error (.malformed "bundle does not close with alive")
  else if frames ≠ 1 ∨ alives ≠ 1 then
    .error (.malformed s!"expected one frame and one alive, found {frames} and {alives}")
  else .ok ()

/-! ## On the wire -/

def toPacket (b : Bundle) : Osc.Packet :=
  .bundle b.time (b.messages.map fun m => .message m.toOsc)

def encode (b : Bundle) : List UInt8 :=
  b.toPacket.encode

end Bundle

end Tangible
