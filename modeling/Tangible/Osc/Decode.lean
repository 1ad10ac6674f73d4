import Tangible.Text.Quoted
import Tangible.Osc.Bytes
import Tangible.Osc.Packet

/-!
# Reading packets

`Packet.decode` reads the bytes of a packet. Padding is counted from the start of the whole
packet, so every step carries its offset. Bytes behind a message are ignored, and so is the first
element of a bundle that cannot be read, with everything behind it.

A blob is followed by the padding of a text: one that ends on a multiple of four bytes needs four
bytes of padding, which a writer does not add.
-/

namespace Tangible.Osc

inductive DecodeError where
  | endOfData
  | invalidText
  | emptyPacket
  | invalidAddress
  | unknownTag (tag : Char)
  | unopenedArray
  | invalidChar
deriving DecidableEq, Repr

def DecodeError.text : DecodeError → String
  | .endOfData => "ReadError(Eof)"
  | .invalidText => "StringError"
  | .emptyPacket => "BadPacket(" ++ Text.quoted "Empty packet." ++ ")"
  | .invalidAddress => "BadPacket(" ++ Text.quoted "Invalid message address or bundle tag" ++ ")"
  | .unknownTag tag =>
    "BadArg(" ++
      Text.quoted ("Type tag \"" ++ String.singleton tag ++ "\" is not implemented!") ++ ")"
  | .unopenedArray => "BadMessage(" ++ Text.quoted "Encountered ] outside array" ++ ")"
  | .invalidChar => "BadArg(" ++ Text.quoted "Argument is not a char!" ++ ")"

/-- Bytes still to be read, and the place of the first of them in the packet. -/
structure Input where
  offset : Nat
  bytes : List UInt8

/-- A step that reads a value and leaves the rest. -/
abbrev Read (α : Type) := StateT Input (Except DecodeError) α

namespace Read

def take (n : Nat) : Read (List UInt8) := fun input =>
  let taken := input.bytes.take n
  if taken.length = n then .ok (taken, ⟨input.offset + n, input.bytes.drop n⟩)
  else .error .endOfData

def four : Read (UInt8 × UInt8 × UInt8 × UInt8) := fun input =>
  match input.bytes with
  | a :: b :: c :: d :: rest => .ok ((a, b, c, d), ⟨input.offset + 4, rest⟩)
  | _ => .error .endOfData

def word : Read UInt32 := do
  let (a, b, c, d) ← four
  return wordOfBytes a b c d

def wide : Read UInt64 := do
  let high ← word
  let low ← word
  return doubleWord high low

def time : Read Timetag := do
  let seconds ← word
  let fraction ← word
  return ⟨seconds, fraction⟩

def padding : Read Unit := fun input =>
  ((fun _ => ()) <$> take (textPadding input.offset)).run input

def untilNul : Read (List UInt8) := fun input =>
  let found := input.bytes.takeWhile (· ≠ 0)
  .ok (found, ⟨input.offset + found.length, input.bytes.dropWhile (· ≠ 0)⟩)

/-- The padding must be there before the text is looked at. -/
def text : Read String := do
  let bytes ← untilNul
  padding
  match text? bytes with
  | some s => return s
  | none => throw .invalidText

def blob : Read (List UInt8) := do
  let length ← word
  let bytes ← take length.toNat
  padding
  return bytes

def char : Read Char := do
  let value ← word
  if h : value.isValidChar then return ⟨value, h⟩ else throw .invalidChar

def arg : Char → Read Arg
  | 'i' => return .int (← word).toInt32
  | 'f' => return .float ⟨← word⟩
  | 's' => return .string (← text)
  | 'b' => return .blob (← blob)
  | 't' => return .time (← time)
  | 'h' => return .long (← wide).toInt64
  | 'd' => return .double ⟨← wide⟩
  | 'c' => return .char (← char)
  | 'r' => do
    let (r, g, b, a) ← four
    return .color r g b a
  | 'm' => do
    let (port, status, data1, data2) ← four
    return .midi port status data1 data2
  | 'T' => return .bool true
  | 'F' => return .bool false
  | 'N' => return .nil
  | 'I' => return .infinitum
  | tag => throw (.unknownTag tag)

/-- The arguments that the tags name. `before` holds the arguments in front of every array that is
still open; an array that is never closed loses them. -/
def args : List Char → List Arg → List (List Arg) → Read (List Arg)
  | [], current, _ => return current
  | '[' :: tags, current, before => args tags [] (current :: before)
  | ']' :: tags, current, outer :: before => args tags (outer ++ [.array current]) before
  | ']' :: _, _, [] => throw .unopenedArray
  | tag :: tags, current, before => do
    let value ← arg tag
    args tags (current ++ [value]) before

/-- The first character of the tag string is not looked at, and a string of one byte names no
arguments. -/
def message (address : String) : Read Message := do
  let tags ← text
  if tags.utf8ByteSize ≤ 1 then return ⟨address, []⟩
  else return ⟨address, ← args tags.toList.tail [] []⟩

end Read

/-- The elements of a bundle up to the first that is cut short. -/
def elements (offset : Nat) : List UInt8 → List Input
  | a :: b :: c :: d :: rest =>
    let size := (wordOfBytes a b c d).toNat
    let element := rest.take size
    if element.length = size then
      ⟨offset + 4, element⟩ :: elements (offset + 4 + size) (rest.drop size)
    else []
  | _ => []
termination_by bytes => bytes.length
decreasing_by simp; omega

/-- The results before the first failure. -/
def okPrefix {ε α : Type} : List (Except ε α) → List α
  | .ok a :: rest => a :: okPrefix rest
  | _ => []

/-- `depth` bounds the nesting of bundles. -/
def Packet.read : Nat → Input → Except DecodeError Packet
  | 0, _ => .error .endOfData
  | depth + 1, input =>
    if input.bytes.isEmpty then .error .emptyPacket
    else do
      let (address, rest) ← Read.text.run input
      if address.toList.head? = some '/' then
        let (m, _) ← (Read.message address).run rest
        return .message m
      else if address = "#bundle" then
        let (time, rest) ← Read.time.run rest
        return .bundle time (okPrefix ((elements rest.offset rest.bytes).map (Packet.read depth)))
      else .error .invalidAddress

/-- Each level of nesting takes some of the bytes, so their number bounds the depth. -/
def Packet.decode (bytes : List UInt8) : Except DecodeError Packet :=
  Packet.read (bytes.length + 1) ⟨0, bytes⟩

end Tangible.Osc
