import Tangible.Message.Halves
import Tangible.Message.Run

/-!
# Frames

A frame opens a bundle. It carries the frame id and the time, and either nothing else or the whole
description of its source: application, network address, instance and size of the sensor.
-/

namespace Tangible

open Osc (Arg)

structure Frame where
  id : UInt32 := 0
  time : Timetag := ⟨0, 0⟩
  application : String := ""
  address : UInt32 := 0
  instanceId : UInt32 := 0
  width : UInt16 := 0
  height : UInt16 := 0
deriving BEq, DecidableEq, Repr

namespace Frame

def dimension (f : Frame) : UInt32 :=
  joinHalves f.width f.height

/-- Whether the source is described on the wire. A description of nothing is left out. -/
def isExtended (f : Frame) : Bool :=
  f.application ≠ "" || f.address ≠ 0 || f.instanceId ≠ 0 || f.dimension ≠ 0

def args (f : Frame) : List Arg :=
  let source : List Arg :=
    if f.isExtended then
      .string f.application :: Run.ofIds [f.address, f.instanceId, f.dimension]
    else []
  .ofId f.id :: .time f.time :: source

def ofArgs? : List Arg → Option Frame
  | [.int id, .time time] => some { id := id.toUInt32, time }
  | [.int id, .time time, .string application, .int address, .int instanceId, .int dimension] =>
    some
      { id := id.toUInt32, time, application
        address := address.toUInt32
        instanceId := instanceId.toUInt32
        width := upperHalf dimension.toUInt32
        height := lowerHalf dimension.toUInt32 }
  | _ => none

/-- The four bytes of a network address, the highest one first. -/
def octets (address : UInt32) : List Nat :=
  [24, 16, 8, 0].map fun shift => address.toNat >>> shift % 256

def addressText (address : UInt32) : String :=
  String.intercalate "." ((octets address).map toString)

def sourceText (f : Frame) : String :=
  " source=" ++ f.application ++ "@" ++ addressText f.address ++
    s!":{f.instanceId} dim={f.width}x{f.height}"

def text (f : Frame) : String :=
  s!"id={f.id} time=" ++ f.time.text ++ if f.isExtended then f.sourceText else ""

end Frame

end Tangible
