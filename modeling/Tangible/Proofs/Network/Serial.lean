import Mathlib.Algebra.Group.Nat.Defs
import Tangible.Network.Assembly
import Tangible.Session

/-!
# Frame ids in order

The ids of successive frames are serial numbers that go round without zero (`serial`). Two of them
compare like their positions as long as these lie less than half a round apart (`isNewer_serial`):
the test sees only the ids, and the zero that a round leaves out makes it one narrower.
-/

namespace Tangible

theorem FrameCounter.toNat_next (c : FrameCounter) :
    c.next.toNat = c.current.toNat % 4294967295 + 1 := by
  have bound := c.current.toNat_lt
  have wraps : c.current + 1 = 0 ↔ c.current.toNat = 4294967295 := by
    rw [← UInt32.toNat_inj, UInt32.toNat_add]
    simp only [UInt32.toNat_one, UInt32.toNat_zero]
    omega
  unfold next
  split
  · next greatest =>
    rw [wraps.mp greatest]
    rfl
  · next inside =>
    rw [wraps] at inside
    rw [UInt32.toNat_add, UInt32.toNat_one]
    omega

/-- The ids of frames in their order: the first one, and what the counter makes of the one
before. -/
def serial (start : UInt32) : Nat → UInt32
  | 0 => start
  | position + 1 => (FrameCounter.mk (serial start position)).next

variable {start : UInt32}

theorem toNat_serial (numbered : start ≠ 0) (position : Nat) :
    (serial start position).toNat = (start.toNat - 1 + position) % 4294967295 + 1 := by
  have first : start.toNat ≠ 0 := fun zero => numbered (UInt32.toNat_inj.mp zero)
  have bound := start.toNat_lt
  induction position with
  | zero =>
    unfold serial
    omega
  | succ position ih =>
    rw [serial, FrameCounter.toNat_next, ih]
    omega

theorem serial_ne_zero (numbered : start ≠ 0) (position : Nat) : serial start position ≠ 0 := by
  cases position with
  | zero => exact numbered
  | succ position =>
    intro zero
    have positive := toNat_serial numbered (position + 1)
    rw [zero, UInt32.toNat_zero] at positive
    omega

/-- Half a round holds `2 ^ 31 - 1` positions between which the ids order themselves. -/
theorem isNewer_serial (numbered : start ≠ 0) {p q : Nat} (hp : p ≤ 2 ^ 31 - 2)
    (hq : q ≤ 2 ^ 31 - 2) :
    Assembly.isNewer (serial start p) (serial start q) = decide (q < p) := by
  have bound := start.toNat_lt
  have first : start.toNat ≠ 0 := fun zero => numbered (UInt32.toNat_inj.mp zero)
  have idp := toNat_serial numbered p
  have idq := toNat_serial numbered q
  have known : serial start q ≠ 0 := serial_ne_zero numbered q
  have differ : serial start p ≠ serial start q ↔ (serial start p).toNat ≠ (serial start q).toNat :=
    not_congr UInt32.toNat_inj.symm
  have ahead : serial start p - serial start q < 0x80000000 ↔
      (2 ^ 32 - (serial start q).toNat + (serial start p).toNat) % 2 ^ 32 < 2 ^ 31 := by
    rw [UInt32.lt_iff_toNat_lt, UInt32.toNat_sub]
    rfl
  rw [Bool.eq_iff_iff, decide_eq_true_eq]
  simp only [Assembly.isNewer, Bool.or_eq_true, Bool.and_eq_true, decide_eq_true_eq, known,
    false_or, differ, ahead]
  omega

end Tangible
