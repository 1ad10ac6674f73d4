import Tangible.Timetag

/-!
# Timetags of Unix times

A timetag holds a duration since 1970 as long as its seconds since 1900 have 32 bits
(`HoldsUnix`). Its fraction is the nanoseconds rounded down (`fractionOf`), and microseconds are the
fraction rounded down once more (`microsOf`). A whole number of microseconds comes back as it was
only where a binary fraction holds it exactly, at the multiples of `1 / 64` of a second
(`microsOf_fractionOf_whole`); else it is one less, and any part of a microsecond makes up for the
loss (`microsOf_fractionOf_of_part`). `ofUnix_accurate` has the bounds and the order together.
-/

namespace Tangible.Timetag

/-! ## Order -/

theorem isLE_compare_iff_toNat {a b : Timetag} : (compare a b).isLE ↔ a.toNat ≤ b.toNat :=
  Nat.isLE_compare

/-- Timetags are ordered by their seconds, and within a second by the fraction. -/
theorem isLE_compare_iff {a b : Timetag} :
    (compare a b).isLE ↔
      a.seconds < b.seconds ∨ a.seconds = b.seconds ∧ a.fraction ≤ b.fraction := by
  have := a.fraction.toNat_lt
  have := b.fraction.toNat_lt
  rw [isLE_compare_iff_toNat, UInt32.lt_iff_toNat_lt, ← UInt32.toNat_inj, UInt32.le_iff_toNat_le]
  unfold toNat second
  omega

/-! ## Two roundings -/

/-- Nanoseconds in parts of a second, rounded down. -/
def fractionOf (nanoseconds : Nat) : Nat := nanoseconds * second / 1000000000

/-- Parts of a second in microseconds, rounded down. -/
def microsOf (fraction : Nat) : Nat := fraction * 1000000 / second

variable {nanoseconds : Nat}

theorem fractionOf_lt (h : nanoseconds < 1000000000) : fractionOf nanoseconds < second := by
  unfold fractionOf second
  omega

theorem fractionOf_le_fractionOf {n n' : Nat} (h : n ≤ n') : fractionOf n ≤ fractionOf n' :=
  Nat.div_le_div_right (Nat.mul_le_mul_right _ h)

theorem microsOf_fractionOf (nanoseconds : Nat) :
    microsOf (fractionOf nanoseconds) = nanoseconds / 1000 ∨
      microsOf (fractionOf nanoseconds) + 1 = nanoseconds / 1000 := by
  unfold microsOf fractionOf second
  omega

/-- A nanosecond is more than what is lost in a fraction. -/
theorem microsOf_fractionOf_of_part (part : nanoseconds % 1000 ≠ 0) :
    microsOf (fractionOf nanoseconds) = nanoseconds / 1000 := by
  unfold microsOf fractionOf second
  omega

theorem dvd_of_exact {fraction micros : Nat}
    (above : fraction * 1000000000 ≤ 1000 * micros * second)
    (below : micros * second ≤ fraction * 1000000) : 15625 ∣ micros := by
  unfold second at above below
  omega

/-- The whole microseconds that come back are the multiples of `1 / 64` of a second. -/
theorem microsOf_fractionOf_whole (micros : Nat) :
    microsOf (fractionOf (1000 * micros)) = micros ↔ 15625 ∣ micros := by
  constructor
  · intro kept
    have below : microsOf (fractionOf (1000 * micros)) * second ≤ _ := Nat.div_mul_le_self ..
    rw [kept] at below
    exact dvd_of_exact (Nat.div_mul_le_self ..) below
  · rintro ⟨k, rfl⟩
    unfold microsOf fractionOf second
    omega

theorem microsOf_fractionOf_eq_iff :
    microsOf (fractionOf nanoseconds) = nanoseconds / 1000 ↔
      nanoseconds % 1000 ≠ 0 ∨ nanoseconds % 15625000 = 0 := by
  by_cases part : nanoseconds % 1000 = 0
  · obtain ⟨micros, rfl⟩ := Nat.dvd_of_mod_eq_zero part
    rw [Nat.mul_div_cancel_left _ (by decide), microsOf_fractionOf_whole]
    omega
  · exact iff_of_true (microsOf_fractionOf_of_part part) (.inl part)

/-! ## Durations since 1970 -/

/-- The seconds since 1900 have 32 bits and the nanoseconds make no second. -/
structure HoldsUnix (seconds nanoseconds : Nat) : Prop where
  seconds_lt : seconds < UInt32.size - unixEpoch
  nanoseconds_lt : nanoseconds < 1000000000

variable {seconds : Nat}

theorem HoldsUnix.toNat_seconds (h : HoldsUnix seconds nanoseconds) :
    (ofUnix seconds nanoseconds).seconds.toNat = seconds + unixEpoch := by
  obtain ⟨inside, whole⟩ := h
  have bound : seconds + unixEpoch < UInt32.size := Nat.add_lt_of_lt_sub inside
  rw [ofUnix, Nat.div_eq_of_lt whole, Nat.add_zero]
  exact UInt32.toNat_ofNat_of_lt bound

theorem HoldsUnix.toNat_fraction (h : HoldsUnix seconds nanoseconds) :
    (ofUnix seconds nanoseconds).fraction.toNat = fractionOf nanoseconds := by
  have whole := Nat.mod_eq_of_lt h.nanoseconds_lt
  rw [ofUnix, whole]
  exact UInt32.toNat_ofNat_of_lt (fractionOf_lt h.nanoseconds_lt)

theorem HoldsUnix.isLE_compare {seconds' nanoseconds' : Nat} (h : HoldsUnix seconds nanoseconds)
    (h' : HoldsUnix seconds' nanoseconds')
    (le : seconds < seconds' ∨ seconds = seconds' ∧ nanoseconds ≤ nanoseconds') :
    (compare (ofUnix seconds nanoseconds) (ofUnix seconds' nanoseconds')).isLE := by
  rw [isLE_compare_iff, UInt32.lt_iff_toNat_lt, ← UInt32.toNat_inj, UInt32.le_iff_toNat_le,
    h.toNat_seconds, h'.toNat_seconds, h.toNat_fraction, h'.toNat_fraction]
  rcases le with earlier | ⟨rfl, le⟩
  · exact .inl (Nat.add_lt_add_right earlier _)
  · exact .inr ⟨rfl, fractionOf_le_fractionOf le⟩

theorem HoldsUnix.toUnixMicros_eq (h : HoldsUnix seconds nanoseconds) :
    (ofUnix seconds nanoseconds).toUnixMicros =
      seconds * 1000000 + microsOf (fractionOf nanoseconds) := by
  rw [toUnixMicros, h.toNat_seconds, h.toNat_fraction, Nat.add_sub_cancel]
  rfl

/-- A timetag holds all bits of the seconds and of the fraction, and the order of durations is the
order of their timetags. The microseconds of the timetag are the whole ones of the duration or one
less, and less exactly for a whole number of them that is no multiple of `1 / 64` of a second. -/
theorem ofUnix_accurate (h : HoldsUnix seconds nanoseconds) :
    let tag := ofUnix seconds nanoseconds
    let micros := seconds * 1000000 + nanoseconds / 1000
    (tag.seconds.toNat = seconds + unixEpoch ∧
        tag.fraction.toNat = nanoseconds * second / 1000000000) ∧
      (∀ seconds' nanoseconds', HoldsUnix seconds' nanoseconds' →
        seconds < seconds' ∨ seconds = seconds' ∧ nanoseconds ≤ nanoseconds' →
          (compare tag (ofUnix seconds' nanoseconds')).isLE) ∧
      (tag.toUnixMicros = micros ∨ tag.toUnixMicros + 1 = micros) ∧
      (nanoseconds % 1000 ≠ 0 ∨ nanoseconds = 0 → tag.toUnixMicros = micros) ∧
      (tag.toUnixMicros = micros ↔ nanoseconds % 1000 ≠ 0 ∨ nanoseconds % 15625000 = 0) := by
  intro tag micros
  have kept : tag.toUnixMicros = micros ↔
      nanoseconds % 1000 ≠ 0 ∨ nanoseconds % 15625000 = 0 := by
    rw [← microsOf_fractionOf_eq_iff, h.toUnixMicros_eq, Nat.add_left_cancel_iff]
  refine ⟨⟨h.toNat_seconds, h.toNat_fraction⟩, fun _ _ => h.isLE_compare, ?_, ?_, kept⟩
  · rw [h.toUnixMicros_eq, Nat.add_assoc, Nat.add_left_cancel_iff, Nat.add_left_cancel_iff]
    exact microsOf_fractionOf nanoseconds
  · rintro (part | rfl)
    · exact kept.mpr (.inl part)
    · exact kept.mpr (.inr rfl)

theorem ofUnix_accurate_one_less :
    HoldsUnix 1700000000 1000 ∧ HoldsUnix 1700000000 1001 ∧
      (ofUnix 1700000000 1000).toUnixMicros = 1700000000000000 ∧
      (ofUnix 1700000000 1001).toUnixMicros = 1700000000000001 ∧
      (compare (ofUnix 1700000000 1000) (ofUnix 1700000000 1001)).isLE := by
  have whole : HoldsUnix 1700000000 1000 := ⟨by decide, by decide⟩
  have part : HoldsUnix 1700000000 1001 := ⟨by decide, by decide⟩
  obtain ⟨-, ordered, less, -, kept⟩ := ofUnix_accurate whole
  have lost := less.resolve_left (mt kept.mp (by decide))
  obtain ⟨-, -, -, same, -⟩ := ofUnix_accurate part
  exact ⟨whole, part, Nat.succ.inj lost, same (.inl (by decide)),
    ordered 1700000000 1001 part (.inr ⟨rfl, by decide⟩)⟩

end Tangible.Timetag
