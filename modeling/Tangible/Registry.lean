import Tangible.Error
import Tangible.Message.Basic

/-!
# Decoding registries

A registry binds addresses to convertors and can switch each binding off. A message of an enabled
address is given to the convertor and dropped if it refuses; any other message becomes a generic
one or is dropped, as the caller chooses. The convertor of a kind reads the arguments of a message.
-/

namespace Tangible

/-- What makes a message of the catalog from one of the wire, if it can. -/
abbrev Convertor := Osc.Message → Option Message

def Kind.convertor (kind : Kind) : Convertor := fun m => kind.read? m.args

structure Binding where
  convertor : Convertor
  enabled : Bool := true

/-- The bindings in ascending order of their addresses. -/
structure Registry where
  bindings : List (String × Binding) := []

namespace Registry

def insert (address : String) (binding : Binding) :
    List (String × Binding) → List (String × Binding)
  | [] => [(address, binding)]
  | (other, old) :: rest =>
    if address < other then (address, binding) :: (other, old) :: rest
    else if address = other then (address, binding) :: rest
    else (other, old) :: insert address binding rest

def lookup (r : Registry) (address : String) : Option Binding :=
  r.bindings.lookup address

/-- Gives every message of the address to the convertor. -/
def bindConvertor (r : Registry) (address : String) (convertor : Convertor) : Registry :=
  ⟨insert address { convertor } r.bindings⟩

/-- Reads the arguments of every message of the address as those of the kind. -/
def bind (r : Registry) (address : String) (kind : Kind) : Registry :=
  r.bindConvertor address kind.convertor

/-- Binds a kind at its own address. -/
def bindKind (r : Registry) (kind : Kind) : Registry :=
  match kind.address? with
  | some address => r.bind address kind
  | none => r

/-- The whole catalog, enabled. -/
def defaults : Registry :=
  Kind.catalog.foldl bindKind {}

def contains (r : Registry) (address : String) : Bool :=
  (r.lookup address).isSome

def unbind (r : Registry) (address : String) : Registry :=
  ⟨r.bindings.filter (·.1 ≠ address)⟩

def setEnabled (r : Registry) (address : String) (enabled : Bool) : Registry :=
  ⟨r.bindings.map fun (other, binding) =>
    if other = address then (other, { binding with enabled }) else (other, binding)⟩

/-- Enables exactly the given addresses, or all when none is given. -/
def restrict (r : Registry) (addresses : List String) : Registry :=
  ⟨r.bindings.map fun (address, binding) =>
    (address, { binding with enabled := addresses.isEmpty || addresses.contains address })⟩

def isEnabled (r : Registry) (address : String) : Bool :=
  match r.lookup address with
  | some binding => binding.enabled
  | none => false

def addresses (r : Registry) : List String :=
  r.bindings.map (·.1)

/-- The bindings with their switches. -/
def text (r : Registry) : String :=
  "\x7b" ++
    String.intercalate ", "
      (r.bindings.map fun (address, binding) => s!"{Text.quoted address}: {binding.enabled}") ++
    "\x7d"

/-! ## Decoding -/

def decode? (r : Registry) (m : Osc.Message) (acceptUnknown : Bool) : Option Message :=
  if r.isEnabled m.address then (r.lookup m.address).bind fun binding => binding.convertor m
  else if acceptUnknown then some (.generic m)
  else none

/-- Every message of a packet that can be decoded, in wire order whatever the nesting. -/
def decodeAll (r : Registry) (packet : Osc.Packet) (acceptUnknown : Bool) : List Message :=
  packet.messages.filterMap (r.decode? · acceptUnknown)

end Registry

/-- Reads the bytes of a packet. -/
def decodePacket (bytes : List UInt8) : Except Error Osc.Packet :=
  match Osc.Packet.decode bytes with
  | .ok packet => .ok packet
  | .error cause => .error (.decode cause)

end Tangible
