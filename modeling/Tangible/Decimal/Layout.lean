import Tangible.Binary.Rounding
import Tangible.Decimal.Shortest

/-!
# Decimal texts of floating-point numbers

`plain` never uses an exponent and writes whole numbers without a point. `exact` marks every number
as fractional and uses an exponent for very small and very large magnitudes. `oneDecimal` has a
fixed place after the point. All three agree on the sign and on numbers that are not finite.
-/

namespace Tangible.Decimal

def digitsOf (n : Nat) : List Char :=
  Nat.toDigits 10 n

/-- The digits with the point after the first `point` places; `whole` ends a whole number. -/
def positional (digits : List Char) (point : Int) (whole : List Char) : List Char :=
  if point ≤ 0 then
    ['0', '.'] ++ List.replicate (-point).toNat '0' ++ digits
  else
    let split := point.toNat
    if digits.length ≤ split then
      digits ++ List.replicate (split - digits.length) '0' ++ whole
    else
      digits.take split ++ ['.'] ++ digits.drop split

/-- One digit before the point, then a power of ten. -/
def scientific (digits : List Char) (point : Int) : List Char :=
  let mantissa := match digits with
    | first :: second :: rest => first :: '.' :: second :: rest
    | short => short
  mantissa ++ ['e'] ++ (if point ≤ 0 then ['-'] else []) ++ digitsOf (point - 1).natAbs

def signed (negative : Bool) (magnitude : List Char) : String :=
  String.ofList (if negative then '-' :: magnitude else magnitude)

def ofParts (finite : Nat → Int → List Char) : Binary.Parts → String
  | .nan => "NaN"
  | .infinite negative => signed negative ['i', 'n', 'f']
  | .finite negative significand exponent => signed negative (finite significand exponent)

/-- The shortest digits and the place of the point among them. -/
def pointed (format : Binary.Format) (significand : Nat) (exponent : Int) : List Char × Int :=
  let scaled := shortest format significand exponent
  let digits := digitsOf scaled.digits
  (digits, scaled.exponent + digits.length)

def plainMagnitude (format : Binary.Format) (significand : Nat) (exponent : Int) : List Char :=
  if significand = 0 then ['0']
  else
    let (digits, point) := pointed format significand exponent
    positional digits point []

/-- Positional from `10 ^ -4` up to, but not including, `10 ^ 16`. -/
def exactMagnitude (format : Binary.Format) (significand : Nat) (exponent : Int) : List Char :=
  if significand = 0 then ['0', '.', '0']
  else
    let (digits, point) := pointed format significand exponent
    if -4 < point ∧ point < 17 then positional digits point ['.', '0']
    else scientific digits point

/-- Rounded to tenths, an exact half to the even neighbour. -/
def oneDecimalMagnitude (significand : Nat) (exponent : Int) : List Char :=
  let tenths := Binary.scaleTo (10 * significand) exponent 0
  digitsOf (tenths / 10) ++ ['.'] ++ digitsOf (tenths % 10)

def plain (x : Single) : String :=
  ofParts (plainMagnitude .single) (.ofSingle x)

def exact (x : Single) : String :=
  ofParts (exactMagnitude .single) (.ofSingle x)

def exactDouble (x : Double) : String :=
  ofParts (exactMagnitude .double) (.ofDouble x)

def oneDecimal (x : Single) : String :=
  ofParts oneDecimalMagnitude (.ofSingle x)

end Tangible.Decimal
