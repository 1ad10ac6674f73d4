import Tangible.Binary.Parts

/-!
# Rounding to single precision

`divNearest` divides to the nearest whole number, and to the even one of two nearest. `ofDyadic`
rounds `n * 2 ^ e` to single precision by that rule, with gradual underflow and with overflow to
infinity.
-/

namespace Tangible.Binary

/-- The quotient nearest to `n / d`, the even one of two nearest. -/
def divNearest (n d : Nat) : Nat :=
  let quotient := n / d
  let twice := 2 * (n % d)
  if d < twice ∨ (d = twice ∧ quotient % 2 = 1) then quotient + 1 else quotient

/-- The significand of `n * 2 ^ exponent` in units of `2 ^ unit`. -/
def scaleTo (n : Nat) (exponent unit : Int) : Nat :=
  if unit ≤ exponent then n <<< (exponent - unit).toNat
  else divNearest n (1 <<< (unit - exponent).toNat)

def signBit (negative : Bool) : Nat :=
  if negative then 0x80000000 else 0

/-- Biased exponent and fraction are added rather than joined, so a significand that rounds up to
the next power of two carries into the exponent. -/
def magnitudeBits (n : Nat) (exponent : Int) : Nat :=
  let unit := max (exponent + n.log2 - 23) (-149)
  min (scaleTo n exponent unit + (unit + 149).toNat <<< 23) 0x7f800000

def ofDyadic (negative : Bool) (n : Nat) (exponent : Int) : Single :=
  ⟨.ofNat (signBit negative + if n = 0 then 0 else magnitudeBits n exponent)⟩

end Tangible.Binary
