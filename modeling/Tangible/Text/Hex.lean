/-!
# Hexadecimal digits

Numbers and bytes in base sixteen. Digits are written in lower case and read in either.
-/

namespace Tangible.Text

/-- The digits without leading zeros, the lowest place last. -/
def hex (n : Nat) : String :=
  String.ofList (Nat.toDigits 16 n)

/-- The digits filled with zeros up to the given width. -/
def hexPadded (width n : Nat) : String :=
  let digits := Nat.toDigits 16 n
  String.ofList (List.replicate (width - digits.length) '0' ++ digits)

/-- Two digits for each byte. -/
def hexBytes (bytes : List UInt8) : String :=
  String.join (bytes.map fun byte => hexPadded 2 byte.toNat)

def hexDigit? (c : Char) : Option Nat :=
  if '0' ≤ c ∧ c ≤ '9' then some (c.toNat - 48)
  else if 'a' ≤ c ∧ c ≤ 'f' then some (c.toNat - 87)
  else if 'A' ≤ c ∧ c ≤ 'F' then some (c.toNat - 55)
  else none

/-- The number that digits stand for, the lowest place last. -/
def hexValue? (cs : List Char) : Option Nat :=
  cs.foldlM (fun n c => (hexDigit? c).map (16 * n + ·)) 0

def bytesOfHex? : List Char → Option (List UInt8)
  | [] => some []
  | high :: low :: rest => do
    let byte ← hexValue? [high, low]
    return .ofNat byte :: (← bytesOfHex? rest)
  | [_] => none

end Tangible.Text
