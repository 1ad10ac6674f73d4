import Mathlib
import Tangible.Geometry.Angle

/-!
# Single precision beside zero

Arithmetic takes its operands apart (`unpacked`), computes exactly, and rounds (`packed`). Patterns
that are no number come apart alike. What a zero, an infinity or no number at all does in an
operation is decided before any rounding, so it is read off the classes of the operands. Differences
of equal numbers and products with zero are `Null`: a zero, or no number where something is not
finite (`sub_self`, `zero_mul`). In a sum the sign of a zero shows only where the sum is zero
(`Agree.add`).
-/

namespace Tangible.Binary

open Float.Model (UnpackedFloat)
open Float.Model.UnpackedFloat (Sign pack_unpack unpack_packedZero unpack_packedNaN unpackSign
  unpackSign_def unpackExponent unpackExponent_def unpackMantissa unpackMantissa_def)
open Angle (notANumber)

/-- A number taken apart into class, sign, significand and exponent. -/
def unpacked (x : Single) : UnpackedFloat := .unpack .binary32 x.bits.toBitVec

def packed (u : UnpackedFloat) : Single := ⟨.ofBitVec (u.pack .binary32)⟩

variable {x y : Single} {s t : Sign}

theorem packed_unpacked (number : unpacked x ≠ .notANumber) : packed (unpacked x) = x := by
  obtain ⟨bits⟩ := x
  have kept := @pack_unpack .binary32 bits.toBitVec (by decide)
  rw [if_neg] at kept
  · exact congrArg (fun b => Single.mk (.ofBitVec b)) kept
  · intro nan
    simp only [UnpackedFloat.isNaNBits, decide_eq_true_eq] at nan
    simp [unpacked, UnpackedFloat.unpack, nan] at number

/-- Taking apart and putting together may change a pattern, but not what it comes apart into. -/
theorem unpacked_packed_unpacked (x : Single) : unpacked (packed (unpacked x)) = unpacked x := by
  by_cases number : unpacked x = .notANumber
  · rw [number]
    exact unpack_packedNaN
  · rw [packed_unpacked number]

theorem unpack_toFloat (x : Single) : x.toFloat.toModel.unpack = unpacked x :=
  unpacked_packed_unpacked x

theorem add_eq (x y : Single) : x + y = packed ((unpacked x).add .binary32 (unpacked y)) := by
  rw [← unpack_toFloat, ← unpack_toFloat]
  rfl

theorem sub_eq (x y : Single) : x - y = packed ((unpacked x).sub .binary32 (unpacked y)) := by
  rw [← unpack_toFloat, ← unpack_toFloat]
  rfl

theorem mul_eq (x y : Single) : x * y = packed ((unpacked x).mul .binary32 (unpacked y)) := by
  rw [← unpack_toFloat, ← unpack_toFloat]
  rfl

theorem div_eq (x y : Single) : x / y = packed ((unpacked x).div .binary32 (unpacked y)) := by
  rw [← unpack_toFloat, ← unpack_toFloat]
  rfl

theorem lt_iff : x < y ↔ (unpacked x).lt (unpacked y) = true := by
  rw [← unpack_toFloat, ← unpack_toFloat]
  show decide (x.toFloat.toModel.unpack.lt y.toFloat.toModel.unpack = true) = true ↔ _
  exact decide_eq_true_iff

theorem isFinite_eq (x : Single) : x.isFinite = (unpacked x).isFinite := by
  rw [← unpack_toFloat]
  rfl

/-- The magnitude is all of the pattern but the sign. -/
theorem unpacked_abs (x : Single) : unpacked x.abs = (unpacked x).abs := by
  have bits : x.abs.bits.toBitVec = x.bits.toBitVec &&& 0x7fffffff#32 := rfl
  have fraction : @unpackMantissa .binary32 x.abs.bits.toBitVec =
      @unpackMantissa .binary32 x.bits.toBitVec := by
    rw [bits, unpackMantissa_def, unpackMantissa_def, BitVec.extractLsb'_and]
    exact BitVec.and_allOnes
  have exponent : @unpackExponent .binary32 x.abs.bits.toBitVec =
      @unpackExponent .binary32 x.bits.toBitVec := by
    rw [bits, unpackExponent_def, unpackExponent_def, BitVec.extractLsb'_and]
    exact BitVec.and_allOnes
  have sign : @unpackSign .binary32 x.abs.bits.toBitVec = 0#1 := by
    rw [bits, unpackSign_def, BitVec.extractLsb'_and]
    exact BitVec.and_zero
  simp only [unpacked, UnpackedFloat.unpack, fraction, exponent, sign]
  split
  · split
    · rfl
    · rfl
  · split
    · split
      · rfl
      · rfl
    · rfl

/-! ## Zeros and what is no number -/

def zero (s : Sign) : Single := packed (.zero s)

theorem zero_positive : zero .positive = 0 := by decide

theorem zero_negative : zero .negative = -0 := by decide

@[simp]
theorem unpacked_zero (s : Sign) : unpacked (zero s) = .zero s := unpack_packedZero

theorem packed_notANumber : packed .notANumber = notANumber := by decide

@[simp]
theorem unpacked_notANumber : unpacked notANumber = .notANumber :=
  packed_notANumber ▸ @unpack_packedNaN .binary32

theorem notANumber_add (x : Single) : notANumber + x = notANumber := by
  rw [add_eq, unpacked_notANumber, ← packed_notANumber]
  cases unpacked x <;> rfl

theorem add_notANumber (x : Single) : x + notANumber = notANumber := by
  rw [add_eq, unpacked_notANumber, ← packed_notANumber]
  cases unpacked x <;> rfl

theorem notANumber_sub (x : Single) : notANumber - x = notANumber := by
  rw [sub_eq, unpacked_notANumber, ← packed_notANumber]
  cases unpacked x <;> rfl

theorem sub_notANumber (x : Single) : x - notANumber = notANumber := by
  rw [sub_eq, unpacked_notANumber, ← packed_notANumber]
  cases unpacked x <;> rfl

theorem eq_zero_of_unpacked (h : unpacked x = .zero s) : x = zero s := by
  have number : unpacked x ≠ .notANumber := by rw [h]; nofun
  rw [← packed_unpacked number, h, zero]

/-- The sign of two signs that is negative only for two negative ones. -/
def both : Sign → Sign → Sign
  | .negative, .negative => .negative
  | _, _ => .positive

theorem both_eq_negative : both s t = .negative ↔ s = .negative ∧ t = .negative := by
  cases s <;> cases t <;> simp [both]

theorem zero_add_zero (s t : Sign) : zero s + zero t = zero (both s t) := by
  rw [add_eq, unpacked_zero, unpacked_zero]
  cases s <;> cases t <;> rfl

theorem zero_sub_zero (s t : Sign) : zero s - zero t = zero (both s (-t)) := by
  rw [sub_eq, unpacked_zero, unpacked_zero]
  cases s <;> cases t <;> rfl

/-! ## Finite numbers -/

/-- Finite, with the sign. -/
def Signed (s : Sign) (x : Single) : Prop :=
  unpacked x = .zero s ∨ ∃ m e h, unpacked x = .finite s m e h

theorem exists_signed (finite : x.isFinite) : ∃ s, Signed s x := by
  rw [isFinite_eq] at finite
  cases h : unpacked x with
  | notANumber => rw [h] at finite; cases finite
  | infinity s => rw [h] at finite; cases finite
  | zero s => exact ⟨s, .inl h⟩
  | finite s m e pos => exact ⟨s, .inr ⟨m, e, pos, h⟩⟩

/-- Less than zero, or the zero with the sign. -/
def Negative (x : Single) : Prop := x < 0 ∨ x = -0

instance : Decidable (Negative x) := inferInstanceAs (Decidable (_ ∨ _))

theorem Signed.negative_iff (h : Signed s x) : Negative x ↔ s = .negative := by
  rw [Negative, ← zero_negative, ← zero_positive, lt_iff, unpacked_zero]
  rcases h with null | ⟨m, e, pos, finite⟩
  · rw [eq_zero_of_unpacked null, unpacked_zero]
    cases s with
    | negative => exact iff_of_true (.inr rfl) rfl
    | positive =>
      have apart : zero .positive ≠ zero .negative := by decide
      exact iff_of_false (not_or.mpr ⟨nofun, apart⟩) nofun
  · have other : x ≠ zero .negative := fun same => by
      rw [same, unpacked_zero] at finite
      cases finite
    rw [finite, or_iff_left other]
    cases s <;> simp [UnpackedFloat.lt, UnpackedFloat.compare]

protected theorem sub_self (x : Single) : x - x = if x.isFinite then 0 else notANumber := by
  rw [sub_eq, isFinite_eq, ← zero_positive, ← packed_notANumber]
  cases unpacked x with
  | notANumber => rfl
  | infinity s => cases s <;> rfl
  | zero s => cases s <;> rfl
  | finite s m e pos =>
    simp only [UnpackedFloat.sub, Int.sub_self]
    rfl

protected theorem mul_comm (x y : Single) : x * y = y * x := by
  have signs (s t : Sign) : s * t = t * s := by cases s <;> cases t <;> rfl
  rw [mul_eq, mul_eq]
  cases unpacked x <;> cases unpacked y <;>
    simp only [UnpackedFloat.mul, signs, Nat.mul_comm, Int.add_comm]

protected theorem zero_mul (h : Signed s x) : 0 * x = zero s := by
  rw [← zero_positive, mul_eq, unpacked_zero]
  rcases h with null | ⟨m, e, pos, finite⟩
  · rw [null]
    cases s <;> rfl
  · rw [finite]
    cases s <;> rfl

theorem zero_mul_of_not_finite (h : ¬ x.isFinite) : 0 * x = notANumber := by
  rw [isFinite_eq] at h
  rw [← zero_positive, mul_eq, unpacked_zero, ← packed_notANumber]
  revert h
  cases unpacked x with
  | notANumber | infinity => exact fun _ => rfl
  | zero | finite => exact fun h => absurd rfl h

theorem mul_zero_eq (x : Single) : x * 0 = 0 * x := Binary.mul_comm ..

theorem isFinite_of_mul (h : (x * y).isFinite) : x.isFinite := by
  have infinite (s : Sign) : (packed (.infinity s)).isFinite = false := by cases s <;> decide
  have undefined : (packed .notANumber).isFinite = false := by decide
  rw [isFinite_eq]
  rw [mul_eq] at h
  revert h
  cases unpacked x with
  | zero | finite => exact fun _ => rfl
  | notANumber | infinity =>
    cases unpacked y <;> simp only [UnpackedFloat.mul, infinite, undefined] <;> exact nofun

/-! ## Null results -/

/-- A zero, or no number. -/
def Null (x : Single) : Prop := (∃ s, x = zero s) ∨ x = notANumber

theorem null_sub_self (x : Single) : Null (x - x) := by
  rw [Binary.sub_self]
  split
  · exact .inl ⟨.positive, zero_positive.symm⟩
  · exact .inr rfl

theorem null_zero_mul (x : Single) : Null (0 * x) := by
  by_cases finite : x.isFinite
  · obtain ⟨s, signed⟩ := exists_signed finite
    exact .inl ⟨s, Binary.zero_mul signed⟩
  · exact .inr (zero_mul_of_not_finite finite)

theorem Null.add (hx : Null x) (hy : Null y) : Null (x + y) := by
  rcases hx with ⟨s, rfl⟩ | rfl
  · rcases hy with ⟨t, rfl⟩ | rfl
    · exact .inl ⟨_, zero_add_zero s t⟩
    · exact .inr (add_notANumber _)
  · exact .inr (notANumber_add _)

theorem Null.sub (hx : Null x) (hy : Null y) : Null (x - y) := by
  rcases hx with ⟨s, rfl⟩ | rfl
  · rcases hy with ⟨t, rfl⟩ | rfl
    · exact .inl ⟨_, zero_sub_zero s t⟩
    · exact .inr (sub_notANumber _)
  · exact .inr (notANumber_sub _)

theorem Null.not_lt_zero (h : Null x) : ¬ x < 0 := by
  rcases h with ⟨s, rfl⟩ | rfl
  · cases s <;> decide
  · decide

theorem Null.not_zero_lt (h : Null x) : ¬ 0 < x := by
  rcases h with ⟨s, rfl⟩ | rfl
  · cases s <;> decide
  · decide

/-! ## Sums -/

/-- Equal in value up to the sign of a zero. -/
def Agree (x y : Single) : Prop :=
  unpacked x = unpacked y ∨ ∃ s t, unpacked x = .zero s ∧ unpacked y = .zero t

theorem Agree.refl (x : Single) : Agree x x := .inl rfl

theorem agree_zero (s t : Sign) : Agree (zero s) (zero t) :=
  .inr ⟨s, t, unpacked_zero s, unpacked_zero t⟩

theorem Agree.symm (h : Agree x y) : Agree y x := by
  rcases h with same | ⟨s, t, hx, hy⟩
  · exact .inl same.symm
  · exact .inr ⟨t, s, hy, hx⟩

theorem Agree.trans {z : Single} (h : Agree x y) (h' : Agree y z) : Agree x z := by
  rcases h with same | ⟨s, t, hx, hy⟩
  · rwa [Agree, same]
  · rcases h' with same | ⟨-, u, -, hz⟩
    · exact .inr ⟨s, t, hx, same ▸ hy⟩
    · exact .inr ⟨s, u, hx, hz⟩

theorem agree_add_zero (x : Single) (s : Sign) : Agree (x + zero s) x := by
  cases h : unpacked x with
  | zero t =>
    rw [eq_zero_of_unpacked h, zero_add_zero]
    exact agree_zero _ _
  | notANumber | infinity | finite =>
    refine .inl ?_
    rw [← unpacked_packed_unpacked x, add_eq, unpacked_zero, h]
    rfl

theorem Agree.add_right (h : Agree x y) (z : Single) : Agree (x + z) (y + z) := by
  rcases h with same | ⟨s, t, hx, hy⟩
  · rw [add_eq, add_eq, same]
    exact .refl _
  · rw [eq_zero_of_unpacked hx, eq_zero_of_unpacked hy]
    cases h : unpacked z with
    | zero r =>
      rw [eq_zero_of_unpacked h, zero_add_zero, zero_add_zero]
      exact agree_zero _ _
    | notANumber | infinity | finite =>
      rw [add_eq, add_eq, unpacked_zero, unpacked_zero, h]
      exact .inl rfl

theorem Agree.add_left (h : Agree x y) (z : Single) : Agree (z + x) (z + y) := by
  rcases h with same | ⟨s, t, hx, hy⟩
  · rw [add_eq, add_eq, same]
    exact .refl _
  · rw [eq_zero_of_unpacked hx, eq_zero_of_unpacked hy]
    exact (agree_add_zero z s).trans (agree_add_zero z t).symm

theorem Agree.add {x' y' : Single} (h : Agree x y) (h' : Agree x' y') :
    Agree (x + x') (y + y') :=
  (h.add_right x').trans (h'.add_left y)

theorem Agree.magnitude_eq (h : Agree x y) : unpacked x.abs = unpacked y.abs := by
  rw [unpacked_abs, unpacked_abs]
  rcases h with same | ⟨s, t, hx, hy⟩
  · rw [same]
  · rw [hx, hy]
    rfl

end Tangible.Binary
