import Tangible.Binary.Rounding

/-!
# Angles

Sine, cosine and the angle of a direction in single precision, and the remainder that brings an
angle into one turn. The first three are sums of power series over fixed-point numbers of 400
binary places, rounded once at the end; the remainder is exact.
-/

namespace Tangible.Angle

open Binary (Parts ofDyadic)

/-! ## Fixed-point series -/

/-- Binary places of the fixed-point numbers. -/
def places : Nat := 400

/-- One in fixed point. -/
def unit : Nat := 1 <<< places

/-- A quarter of a turn in fixed point, rounded down. -/
def quarterTurn : Nat :=
  0x1921fb54442d18469898cc51701b839a252049c1114cf98e804177d4c76273644a29410f31c6809bbdf2a33679a7486366056

def mulFixed (a b : Nat) : Nat :=
  a * b / unit

/-- `1 - s / (k (k + 1)) * (1 - s / ((k + 2) (k + 3)) * ...)` with the given number of factors. -/
def alternating (s : Nat) : Nat → Nat → Nat
  | 0, _ => unit
  | terms + 1, k => unit - mulFixed s (alternating s terms (k + 2)) / (k * (k + 1))

/-- The sine of an angle of at most a quarter turn. -/
def sineFixed (r : Nat) : Nat :=
  mulFixed r (alternating (mulFixed r r) 30 2)

/-- The cosine of an angle of at most a quarter turn. -/
def cosineFixed (r : Nat) : Nat :=
  alternating (mulFixed r r) 30 1

/-- Sums the terms behind `term`, each of which is the one before times `w (2 n) / (2 n + 1)`. -/
def sumScaled (w : Nat) : Nat → Nat → Nat → Nat
  | 0, _, term => term
  | terms + 1, n, term =>
    term + sumScaled w terms (n + 1) (mulFixed term w * (2 * n) / (2 * n + 1))

/-- The angle whose tangent is `a / b`, at most one, in fixed point. -/
def arcFixed (a b : Nat) : Nat :=
  let square := a * a + b * b
  sumScaled (a * a * unit / square) 80 1 (a * b * unit / square)

/-- The angle of the direction `(b, a)` of the first quadrant. -/
def quadrantAngle (a b : Nat) : Nat :=
  if a = 0 then 0
  else if a ≤ b then arcFixed a b
  else quarterTurn - arcFixed b a

/-! ## Single precision -/

def notANumber : Single := ⟨0x7fc00000⟩

def ofFixed (negative : Bool) (n : Nat) : Single :=
  ofDyadic negative n (-places)

/-- The quarter turns in `significand * 2 ^ exponent` and the rest, in fixed point. -/
def reduce (significand : Nat) (exponent : Int) : Nat × Nat :=
  let scaled := significand <<< (exponent + places).toNat
  (scaled / quarterTurn, scaled % quarterTurn)

def sin (x : Single) : Single :=
  match Parts.ofSingle x with
  | .finite negative significand exponent =>
    let (quarters, rest) := reduce significand exponent
    let magnitude := if quarters % 2 = 0 then sineFixed rest else cosineFixed rest
    ofFixed (negative != decide (quarters % 4 ≥ 2)) magnitude
  | _ => notANumber

def cos (x : Single) : Single :=
  match Parts.ofSingle x with
  | .finite _ significand exponent =>
    let (quarters, rest) := reduce significand exponent
    let magnitude := if quarters % 2 = 0 then cosineFixed rest else sineFixed rest
    ofFixed (decide ((quarters + 1) % 4 ≥ 2)) magnitude
  | _ => notANumber

/-- The magnitudes of two numbers in one unit. Beside an infinity every finite number is nothing,
and two infinities are equal. -/
def commonScale : Parts → Parts → Option (Nat × Nat)
  | .nan, _ | _, .nan => none
  | .infinite _, .infinite _ => some (1, 1)
  | .infinite _, _ => some (1, 0)
  | _, .infinite _ => some (0, 1)
  | .finite _ m e, .finite _ n f =>
    let low := min e f
    some (m <<< (e - low).toNat, n <<< (f - low).toNat)

def isNegative : Parts → Bool
  | .nan => false
  | .infinite negative => negative
  | .finite negative _ _ => negative

/-- The angle of the direction `(x, y)`, from half a turn clockwise to half a turn
counter-clockwise. -/
def ofDirection (y x : Single) : Single :=
  let py := Parts.ofSingle y
  let px := Parts.ofSingle x
  match commonScale py px with
  | none => notANumber
  | some (a, b) =>
    let angle := quadrantAngle a b
    ofFixed (isNegative py) (if isNegative px then 2 * quarterTurn - angle else angle)

/-- The remainder of a division by a positive finite number, with the sign of the dividend. -/
def remainder (x m : Single) : Single :=
  match Parts.ofSingle x, Parts.ofSingle m with
  | .finite negative a e, .finite _ b f =>
    let low := min e f
    ofDyadic negative (a <<< (e - low).toNat % b <<< (f - low).toNat) low
  | _, _ => notANumber

/-- One turn in single precision. -/
def turn : Single := ⟨0x40c90fdb⟩

/-- The angle brought into one turn from zero. A negative remainder gets a turn added. -/
def wrap (angle : Single) : Single :=
  let rest := remainder angle turn
  if rest < 0 then rest + turn else rest

end Tangible.Angle
