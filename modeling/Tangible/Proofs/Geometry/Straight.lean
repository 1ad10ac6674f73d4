import Tangible.Proofs.Binary.Zero
import Tangible.Proofs.Geometry.Convex

/-!
# Corners at an edge without length

Where a vertex is given again, an edge without length begins or ends. The corner beside it is
straight whatever the other edge is (`straight_arriving`, `straight_leaving`). Its angle is that of
a zero turn beside a zero inner product, and the sign of this zero decides: it is negative where the
other edge goes down in both coordinates (`descends`), and there the edge without length adds half a
turn as if the boundary folded back (`angle_arriving`, `angle_leaving`).
-/

namespace Tangible

def Point2.Finite (p : Point2) : Prop := p.x.isFinite ∧ p.y.isFinite

namespace Polygon

open Binary
open Float.Model.UnpackedFloat (Sign)
open Angle (notANumber)

/-! ## Angles of nothing -/

/-- Half a turn in single precision. -/
def halfTurn : Single := ⟨0x40490fdb⟩

theorem ofDirection_ahead (s : Sign) : Angle.ofDirection (zero s) 0 = zero s := by
  cases s <;> decide +kernel

theorem ofDirection_back : Angle.ofDirection 0 (zero .negative) = halfTurn := by
  decide +kernel

theorem ofDirection_undefined (x : Single) : Angle.ofDirection notANumber x = notANumber := by
  have undefined : Parts.ofSingle notANumber = .nan := by decide
  simp only [Angle.ofDirection, undefined, Angle.commonScale]

theorem turnOf_null {x : Single} (h : Null x) : turnOf x = none := by
  rw [turnOf, if_neg h.not_zero_lt, if_neg h.not_lt_zero]

/-! ## Edges -/

/-- Both coordinates of the edge are finite. -/
def spans (a b : Point2) : Bool := (b.x - a.x).isFinite && (b.y - a.y).isFinite

/-- Both coordinates of the edge are less than zero, or the zero with the sign. -/
def descends (a b : Point2) : Bool := Negative (b.x - a.x) && Negative (b.y - a.y)

/-- What an edge without length adds to the winding at one end of the edge from `a` to `b`. -/
def passing (measured : Bool) (a b : Point2) : Single :=
  if measured then if descends a b then halfTurn else 0 else notANumber

/-- At the end of the edge, which is given again. -/
def arriving (a b : Point2) : Single := passing ((b.x - a.x) * (b.y - a.y)).isFinite a b

/-- At the beginning of the edge, which is given again. -/
def leaving (a b : Point2) : Single := passing (spans a b) a b

variable {a b c : Point2} {s t : Sign}

theorem descends_iff (sx : Signed s (b.x - a.x)) (sy : Signed t (b.y - a.y)) :
    descends a b ↔ both s t = .negative := by
  rw [descends, Bool.and_eq_true, decide_eq_true_iff, decide_eq_true_iff, sx.negative_iff,
    sy.negative_iff, both_eq_negative]

/-- The angle of a zero turn beside an inner product that is the sum of zeros with the signs of the
edge. -/
theorem agree_ofDirection (sx : Signed s (b.x - a.x)) (sy : Signed t (b.y - a.y)) {turn : Sign}
    (back : both s t = .negative → turn = .positive) :
    Agree (Angle.ofDirection (zero turn) (zero (both s t))) (passing true a b) := by
  have descent := descends_iff sx sy
  cases sign : both s t with
  | negative =>
    rw [passing, if_pos rfl, if_pos (descent.mpr sign), back sign, zero_positive, ofDirection_back]
    exact .refl _
  | positive =>
    have level : ¬ descends a b = true := by rw [descent, sign]; nofun
    rw [passing, if_pos rfl, if_neg level, zero_positive, ofDirection_ahead, ← zero_positive]
    exact agree_zero _ _

/-! ## Corners -/

theorem sub_self_x (finite : b.Finite) : b.x - b.x = 0 := by
  rw [Binary.sub_self, if_pos finite.1]

theorem sub_self_y (finite : b.Finite) : b.y - b.y = 0 := by
  rw [Binary.sub_self, if_pos finite.2]

theorem cross_arriving (a b : Point2) :
    cross a b b = (b.x - a.x) * (b.y - a.y) - (b.x - a.x) * (b.y - a.y) := by
  rw [cross, Binary.mul_comm (b.y - a.y)]

theorem along_arriving (finite : b.Finite) :
    along a b b = 0 * (b.x - a.x) + 0 * (b.y - a.y) := by
  rw [along, sub_self_x finite, sub_self_y finite, mul_zero_eq, mul_zero_eq]

theorem cross_leaving (finite : b.Finite) :
    cross b b c = 0 * (c.y - b.y) - 0 * (c.x - b.x) := by
  rw [cross, sub_self_x finite, sub_self_y finite]

theorem along_leaving (finite : b.Finite) :
    along b b c = 0 * (c.x - b.x) + 0 * (c.y - b.y) := by
  rw [along, sub_self_x finite, sub_self_y finite]

theorem cross_undefined (measured : ¬ spans b c = true) :
    0 * (c.y - b.y) - 0 * (c.x - b.x) = notANumber := by
  rw [spans, Bool.and_eq_true, not_and_or] at measured
  rcases measured with mx | my
  · rw [zero_mul_of_not_finite mx, sub_notANumber]
  · rw [zero_mul_of_not_finite my, notANumber_sub]

theorem straight_arriving (finite : b.Finite) (i : Nat) : (Corner.mk a b b i).Straight := by
  refine ⟨turnOf_null ?_, Null.not_lt_zero ?_⟩
  · rw [Corner.turn, cross_arriving]
    exact null_sub_self _
  · rw [Corner.inner, along_arriving finite]
    exact (null_zero_mul _).add (null_zero_mul _)

theorem straight_leaving (finite : b.Finite) (i : Nat) : (Corner.mk b b c i).Straight := by
  refine ⟨turnOf_null ?_, Null.not_lt_zero ?_⟩
  · rw [Corner.turn, cross_leaving finite]
    exact (null_zero_mul _).sub (null_zero_mul _)
  · rw [Corner.inner, along_leaving finite]
    exact (null_zero_mul _).add (null_zero_mul _)

theorem angle_arriving (finite : b.Finite) (i : Nat) :
    Agree (Corner.mk a b b i).angle (arriving a b) := by
  rw [Corner.angle, Corner.turn, Corner.inner, cross_arriving, Binary.sub_self, arriving]
  by_cases measured : ((b.x - a.x) * (b.y - a.y)).isFinite
  · obtain ⟨s, sx⟩ := exists_signed (isFinite_of_mul measured)
    obtain ⟨t, sy⟩ := exists_signed (isFinite_of_mul (Binary.mul_comm (b.x - a.x) _ ▸ measured))
    rw [if_pos measured, measured, along_arriving finite, Binary.zero_mul sx, Binary.zero_mul sy,
      zero_add_zero, ← zero_positive]
    exact agree_ofDirection sx sy fun _ => rfl
  · rw [if_neg measured, ofDirection_undefined, passing, if_neg measured]
    exact .refl _

theorem angle_leaving (finite : b.Finite) (i : Nat) :
    Agree (Corner.mk b b c i).angle (leaving b c) := by
  rw [Corner.angle, Corner.turn, Corner.inner, cross_leaving finite, along_leaving finite, leaving]
  by_cases measured : spans b c
  · obtain ⟨mx, my⟩ := Bool.and_eq_true_iff.mp measured
    obtain ⟨s, sx⟩ := exists_signed mx
    obtain ⟨t, sy⟩ := exists_signed my
    rw [measured, Binary.zero_mul sx, Binary.zero_mul sy, zero_sub_zero, zero_add_zero]
    refine agree_ofDirection sx sy fun sign => ?_
    obtain ⟨rfl, rfl⟩ := both_eq_negative.mp sign
    rfl
  · rw [passing, if_neg measured]
    rw [cross_undefined measured, ofDirection_undefined]
    exact .refl _

/-- A vertex that is given twice again has a corner without any edge, which adds nothing. -/
theorem angle_staying (finite : b.Finite) (i : Nat) : Agree (Corner.mk b b b i).angle 0 := by
  have nothing : leaving b b = 0 := by
    rw [leaving, passing, spans, descends, sub_self_x finite, sub_self_y finite]
    decide
  exact nothing ▸ angle_leaving finite i

end Polygon

end Tangible
