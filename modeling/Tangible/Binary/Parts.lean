import Tangible.Binary.Number

/-!
# Binary interchange formats

A bit pattern of a binary floating-point format, taken apart into sign, significand and exponent.
A finite number is `significand * 2 ^ exponent` up to its sign.
-/

namespace Tangible.Binary

/-- Widths of the two lower fields of a pattern. -/
structure Format where
  fractionBits : Nat
  exponentBits : Nat
deriving DecidableEq, Repr

def Format.single : Format := ⟨23, 8⟩

def Format.double : Format := ⟨52, 11⟩

/-- The exponent of the last place of subnormal numbers. -/
def Format.minExponent (format : Format) : Int :=
  2 - (1 <<< (format.exponentBits - 1) : Nat) - format.fractionBits

inductive Parts where
  | nan
  | infinite (negative : Bool)
  | finite (negative : Bool) (significand : Nat) (exponent : Int)
deriving DecidableEq, Repr

def Parts.ofBits (format : Format) (bits : Nat) : Parts :=
  let fraction := bits % 1 <<< format.fractionBits
  let field := bits >>> format.fractionBits % 1 <<< format.exponentBits
  let negative := bits >>> (format.fractionBits + format.exponentBits) % 2 = 1
  if field + 1 = 1 <<< format.exponentBits then
    if fraction = 0 then .infinite negative else .nan
  else if field = 0 then
    .finite negative fraction format.minExponent
  else
    .finite negative (1 <<< format.fractionBits + fraction) (format.minExponent + field - 1)

def Parts.ofSingle (x : Single) : Parts :=
  .ofBits .single x.bits.toNat

def Parts.ofDouble (x : Double) : Parts :=
  .ofBits .double x.bits.toNat

end Tangible.Binary
