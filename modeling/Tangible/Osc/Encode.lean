import Tangible.Osc.Bytes
import Tangible.Osc.Packet

/-!
# Writing packets

`Packet.encode` gives the bytes of a packet. A message is its address, the tag string behind a
comma, and the data of the arguments; a bundle is its marker, its time, and every element behind
its length. An array adds brackets to the tag string and nothing to the data.
-/

namespace Tangible.Osc

def encodeText (s : String) : List UInt8 :=
  let bytes := textBytes s
  bytes ++ List.replicate (textPadding bytes.length) 0

def encodeBlob (bytes : List UInt8) : List UInt8 :=
  wordBytes (.ofNat bytes.length) ++ bytes ++ List.replicate (blobPadding bytes.length) 0

def encodeTime (t : Timetag) : List UInt8 :=
  wordBytes t.seconds ++ wordBytes t.fraction

mutual

/-- The tag with the tags of an array's items between brackets. -/
def Arg.wireTags : Arg → List Char
  | .array items => '[' :: (wireTagsOf items ++ [']'])
  | arg => [arg.tag]

def wireTagsOf : List Arg → List Char
  | [] => []
  | arg :: rest => arg.wireTags ++ wireTagsOf rest

end

mutual

def Arg.encode : Arg → List UInt8
  | .int v => wordBytes v.toUInt32
  | .float v => wordBytes v.bits
  | .string s => encodeText s
  | .blob bytes => encodeBlob bytes
  | .time t => encodeTime t
  | .long v => doubleWordBytes v.toUInt64
  | .double v => doubleWordBytes v.bits
  | .char c => wordBytes c.val
  | .color r g b a => [r, g, b, a]
  | .midi port status data1 data2 => [port, status, data1, data2]
  | .array items => encodeArgs items
  | .bool _ | .nil | .infinitum => []

def encodeArgs : List Arg → List UInt8
  | [] => []
  | arg :: rest => arg.encode ++ encodeArgs rest

end

def Message.encode (m : Message) : List UInt8 :=
  encodeText m.address ++ encodeText (String.ofList (',' :: wireTagsOf m.args)) ++
    encodeArgs m.args

def bundleMarker : String := "#bundle"

def withLength (bytes : List UInt8) : List UInt8 :=
  wordBytes (.ofNat bytes.length) ++ bytes

mutual

def Packet.encode : Packet → List UInt8
  | .message m => m.encode
  | .bundle time content => encodeText bundleMarker ++ encodeTime time ++ encodeElements content

def encodeElements : List Packet → List UInt8
  | [] => []
  | packet :: rest => withLength packet.encode ++ encodeElements rest

end

end Tangible.Osc
