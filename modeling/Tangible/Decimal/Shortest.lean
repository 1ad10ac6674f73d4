import Tangible.Binary.Parts

/-!
# Shortest decimal digits

The fewest decimal digits that read back to the same number of a binary format, and of these the
nearest to it. Every comparison is one of natural numbers: the number and the ends of the interval
that rounds to it are whole multiples of one power of ten.
-/

namespace Tangible.Decimal

/-- `digits * 10 ^ exponent`. -/
structure Scaled where
  digits : Nat
  exponent : Int
deriving DecidableEq, Repr

/-- The decimal places that `2 ^ exponent` takes, as a multiplier and a power of ten. -/
def placesOf (exponent : Int) : Scaled :=
  if 0 ≤ exponent then ⟨1 <<< exponent.toNat, 0⟩ else ⟨Nat.pow 5 (-exponent).toNat, exponent⟩

/-- An interval around `value`; its ends belong to it when `closed` is set. -/
structure Interval where
  low : Nat
  value : Nat
  high : Nat
  closed : Bool

def Interval.contains (i : Interval) (n : Nat) : Bool :=
  if i.closed then i.low ≤ n && n ≤ i.high else i.low < n && n < i.high

/-- The point of the grid of step `step` that is nearest to the value, the upper one of two
nearest, if the interval holds a point of the grid. -/
def Interval.gridPoint? (i : Interval) (step : Nat) : Option Nat :=
  let below := i.value / step
  let lower := below * step
  let upper := lower + step
  match i.contains lower, i.contains upper with
  | true, true => some (if i.value - lower < upper - i.value then below else below + 1)
  | true, false => some below
  | false, true => some (below + 1)
  | false, false => none

/-- The coarsest decimal grid of step at most `10 ^ places` with a point in the interval. -/
def Interval.shortest (i : Interval) : Nat → Scaled
  | 0 => ⟨i.value, 0⟩
  | places + 1 =>
    match i.gridPoint? (Nat.pow 10 places) with
    | some digits => ⟨digits, places⟩
    | none => i.shortest places

/-- A carry into a new place leaves one zero at the end. -/
def Scaled.dropZero (s : Scaled) : Scaled :=
  if s.digits ≠ 0 ∧ s.digits % 10 = 0 then ⟨s.digits / 10, s.exponent + 1⟩ else s

/-- The numbers that round to `significand * 2 ^ exponent`, in quarters of its last place. The gap
below a power of two is half the gap above it. -/
def roundingInterval (format : Binary.Format) (significand : Nat) (exponent : Int) :
    Interval × Int :=
  let places := placesOf (exponent - 2)
  let below :=
    if significand = 1 <<< format.fractionBits ∧ format.minExponent < exponent then 1 else 2
  (⟨(4 * significand - below) * places.digits, 4 * significand * places.digits,
    (4 * significand + 2) * places.digits, significand % 2 = 0⟩, places.exponent)

/-- The shortest digits of a positive number. -/
def shortest (format : Binary.Format) (significand : Nat) (exponent : Int) : Scaled :=
  let (interval, unit) := roundingInterval format significand exponent
  let found := interval.shortest (Nat.toDigits 10 interval.value).length
  Scaled.dropZero ⟨found.digits, found.exponent + unit⟩

end Tangible.Decimal
