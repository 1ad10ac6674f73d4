import Tangible.Config.Json
import Tangible.Message.Frame
import Tangible.Registry

/-!
# Configurations

What a client and a server are set up with. Every setting has a default; a configuration is read
from a JSON object with the settings that differ, or from an array of the settings in order.
-/

namespace Tangible.Config

/-! ## Network addresses -/

/-- One to three digits without a leading zero, at most 255. -/
def octet? (cs : List Char) : Option UInt32 :=
  let leadingZero := cs.head? = some '0' ∧ 1 < cs.length
  if cs.isEmpty ∨ 3 < cs.length ∨ leadingZero ∨ !cs.all Char.isDigit then none
  else
    let n := cs.foldl (fun n c => 10 * n + (c.toNat - 48)) 0
    if n < 256 then some (.ofNat n) else none

/-- The parts of a list between dots. -/
def dotted : List Char → List (List Char)
  | [] => [[]]
  | c :: rest =>
    if c = '.' then [] :: dotted rest
    else match dotted rest with
      | part :: parts => (c :: part) :: parts
      | [] => [[c]]

/-- A network address of four octets. -/
def address? (s : String) : Option UInt32 := do
  match ← (dotted s.toList).mapM octet? with
  | [a, b, c, d] => some (a <<< 24 ||| b <<< 16 ||| c <<< 8 ||| d)
  | _ => none

/-! ## Clients -/

structure Client where
  /-- Where the client listens. -/
  bindAddress : String := "0.0.0.0:3333"
  /-- Whether messages of unknown or disabled addresses are kept as generic messages. -/
  acceptUnknown : Bool := false
  /-- The addresses that are decoded, or none for all of them. -/
  addresses : List String := []
  maxPacketSize : Nat := 65507
deriving DecidableEq, Repr

namespace Client

def fieldNames : List String := ["bind_addr", "accept_unknown", "convertors", "max_packet_size"]

def parse? (s : String) : Option Client := do
  let fields ← (← Json.parse? s).fields? fieldNames
  let default : Client := {}
  return {
    bindAddress := ← Json.field fields "bind_addr" Json.string? default.bindAddress
    acceptUnknown := ← Json.field fields "accept_unknown" Json.boolean? default.acceptUnknown
    addresses := ← Json.field fields "convertors" (Json.list? Json.string?) default.addresses
    maxPacketSize :=
      ← Json.field fields "max_packet_size" (Json.natBelow? UInt64.size) default.maxPacketSize }

def registry (c : Client) : Registry := Registry.defaults.restrict c.addresses

end Client

/-! ## Servers -/

structure Server where
  bindAddress : String := "0.0.0.0:0"
  /-- Where bundles are sent. -/
  targetAddress : String := "127.0.0.1:3333"
  /-- Whether a failing processor stops a send instead of being skipped. -/
  paranoid : Bool := false
  /-- The source that frames describe, with the size of its sensor. -/
  sourceName : String := "tuio-rs"
  sourceAddress : UInt32 := 0x7f000001
  instanceId : UInt32 := 0
  width : UInt16 := 0
  height : UInt16 := 0
deriving DecidableEq, Repr

namespace Server

def fieldNames : List String :=
  ["bind_addr", "target_addr", "paranoid", "source_name", "source_address", "instance_id",
    "dimension"]

def dimension? : Json → Option (UInt16 × UInt16)
  | .array [width, height] => do
    let w ← width.natBelow? UInt16.size
    let h ← height.natBelow? UInt16.size
    return (.ofNat w, .ofNat h)
  | _ => none

def parse? (s : String) : Option Server := do
  let fields ← (← Json.parse? s).fields? fieldNames
  let default : Server := {}
  let instanceId ←
    Json.field fields "instance_id" (Json.natBelow? UInt32.size) default.instanceId.toNat
  let (width, height) ←
    Json.field fields "dimension" dimension? (default.width, default.height)
  return {
    bindAddress := ← Json.field fields "bind_addr" Json.string? default.bindAddress
    targetAddress := ← Json.field fields "target_addr" Json.string? default.targetAddress
    paranoid := ← Json.field fields "paranoid" Json.boolean? default.paranoid
    sourceName := ← Json.field fields "source_name" Json.string? default.sourceName
    sourceAddress :=
      ← Json.field fields "source_address" (fun j => j.string?.bind address?)
        default.sourceAddress
    instanceId := .ofNat instanceId, width, height }

/-- The frame that every bundle of the server opens with, apart from its id and its time. -/
def frame (c : Server) : Frame :=
  { application := c.sourceName, address := c.sourceAddress, instanceId := c.instanceId
    width := c.width, height := c.height }

end Server

end Tangible.Config
