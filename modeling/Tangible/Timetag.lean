import Tangible.Text.Hex

/-!
# Timetags

A point in time as seconds since the start of 1900 and a binary fraction of a second, ordered by
the seconds first. `ofUnix` reads a duration since the start of 1970 and `toUnixMicros` gives it
back in whole microseconds.
-/

namespace Tangible

structure Timetag where
  seconds : UInt32
  fraction : UInt32
deriving DecidableEq, Repr, Inhabited

namespace Timetag

/-- The tag of a bundle that takes effect when it arrives. -/
def immediately : Timetag := ⟨0, 1⟩

/-- Seconds from the start of 1900 to the start of 1970. -/
def unixEpoch : Nat := 2208988800

/-- The parts of a second that the fraction counts. -/
def second : Nat := 0x100000000

/-- Whole seconds among the nanoseconds carry over. The seconds wrap at 32 bits; the fraction is
rounded down. -/
def ofUnix (seconds nanoseconds : Nat) : Timetag :=
  ⟨.ofNat (seconds + nanoseconds / 1000000000 + unixEpoch),
    .ofNat (nanoseconds % 1000000000 * second / 1000000000)⟩

/-- Times before 1970 keep only their fraction. -/
def toUnixMicros (t : Timetag) : Nat :=
  (t.seconds.toNat - unixEpoch) * 1000000 + t.fraction.toNat * 1000000 / second

/-- The parts of a second since the start of 1900. -/
def toNat (t : Timetag) : Nat :=
  t.seconds.toNat * second + t.fraction.toNat

instance : Ord Timetag := ⟨fun a b => compare a.toNat b.toNat⟩

def text (t : Timetag) : String :=
  toString t.seconds ++ "." ++ Text.hexPadded 8 t.fraction.toNat

end Timetag

end Tangible
