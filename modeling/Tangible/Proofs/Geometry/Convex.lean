import Mathlib.Data.List.Basic
import Tangible.Geometry.Polygon

/-!
# Walks around convex polygons

A walk around a polygon of some orientation passes a corner that turns that way or is `Straight`
(`Corner.Fits`). If all corners are such, the walk ends with the orientation, unless no corner
turns, and with the sum of the angles (`orientation?_of_fits`); if it ends with an orientation, all
corners are such (`fits_of_orientation?`).
-/

namespace Tangible.Polygon

/-! ## Corners -/

namespace Corner

def turn (c : Corner) : Single := cross c.before c.vertex c.behind

def inner (c : Corner) : Single := along c.before c.vertex c.behind

/-- What the corner adds to the winding. -/
def angle (c : Corner) : Single := Angle.ofDirection c.turn c.inner

def turns (c : Corner) : Bool := (turnOf c.turn).isSome

/-- No turn, and not back either. -/
def Straight (c : Corner) : Prop := turnOf c.turn = none ∧ ¬ c.inner < 0

def Fits (o : Orientation) (c : Corner) : Prop := turnOf c.turn = some o ∨ c.Straight

variable {c : Corner} {o : Orientation}

theorem turns_of_turnOf (h : turnOf c.turn = some o) : c.turns = true := by
  rw [turns, h]
  rfl

theorem Straight.turns_eq (h : c.Straight) : c.turns = false := by
  rw [turns, h.1]
  rfl

end Corner

/-! ## Steps -/

/-- The walk has seen no turn, or turns of this orientation alone. -/
def Walk.Seen (w : Walk) (o : Orientation) : Prop :=
  w.orientation = none ∨ w.orientation = some o

variable {o : Orientation} {w w' : Walk} {c : Corner} {cs : List Corner}

theorem step_of_fits (fits : c.Fits o) (seen : w.Seen o) :
    w.step c = .ok ⟨if c.turns then some o else w.orientation, w.winding + c.angle⟩ := by
  rcases fits with turn | straight
  · rw [Corner.turns_of_turnOf turn, if_pos rfl]
    rw [Corner.turn] at turn
    rcases seen with seen | seen <;> simp only [Walk.step, turn, seen, if_true] <;> rfl
  · rw [straight.turns_eq]
    obtain ⟨turn, ahead⟩ := straight
    rw [Corner.turn] at turn
    rw [Corner.inner] at ahead
    simp only [Walk.step, turn, if_neg ahead]
    rfl

theorem fits_of_step (step : w.step c = .ok w') (seen : w'.Seen o) : c.Fits o ∧ w.Seen o := by
  simp only [Walk.step] at step
  split at step
  · next turn =>
    split at step
    · cases step
    · next ahead =>
      cases step
      exact ⟨.inr ⟨turn, ahead⟩, seen⟩
  · next o' turn =>
    split at step
    · next unseen =>
      cases step
      exact ⟨.inl (turn.trans (seen.resolve_left nofun)), .inl unseen⟩
    · next before =>
      split at step
      · next same =>
        cases step
        have known := seen.resolve_left nofun
        exact ⟨.inl (turn.trans (same ▸ known)), .inr (before.trans known)⟩
      · cases step

/-! ## Walks -/

theorem foldlM_step (fits : ∀ c ∈ cs, c.Fits o) (seen : w.Seen o) :
    cs.foldlM Walk.step w =
      .ok ⟨if cs.any Corner.turns then some o else w.orientation,
        (cs.map Corner.angle).foldl (· + ·) w.winding⟩ := by
  induction cs generalizing w with
  | nil => rfl
  | cons c cs ih =>
    obtain ⟨first, rest⟩ := List.forall_mem_cons.mp fits
    have seen' : Walk.Seen ⟨if c.turns then some o else w.orientation, w.winding + c.angle⟩ o := by
      cases turns : c.turns
      · exact seen
      · exact .inr rfl
    rw [List.foldlM_cons, step_of_fits first seen]
    refine (ih rest seen').trans ?_
    rw [List.any_cons, List.map_cons, List.foldl_cons]
    cases c.turns <;> cases cs.any Corner.turns <;> rfl

theorem fits_of_foldlM (walk : cs.foldlM Walk.step w = .ok w') (seen : w'.Seen o) :
    (∀ c ∈ cs, c.Fits o) ∧ w.Seen o := by
  induction cs generalizing w with
  | nil =>
    cases walk
    exact ⟨nofun, seen⟩
  | cons c cs ih =>
    rw [List.foldlM_cons] at walk
    cases step : w.step c with
    | error e =>
      rw [step] at walk
      cases walk
    | ok w₁ =>
      rw [step] at walk
      obtain ⟨rest, between⟩ := ih walk
      obtain ⟨first, before⟩ := fits_of_step step between
      exact ⟨List.forall_mem_cons.mpr ⟨first, rest⟩, before⟩

/-! ## Polygons -/

variable {points : List Point2}

/-- What is said of a polygon with that winding in which some corner turns. -/
def verdict (o : Orientation) (winding : Single) : Except Defect Orientation :=
  if (winding.abs - Angle.turn).abs > tolerance then .error (.winds (winding.abs / Angle.turn))
  else .ok o

theorem orientation?_of_fits (enough : 3 ≤ points.length)
    (fits : ∀ c ∈ corners points, c.Fits o) :
    orientation? points =
      if (corners points).any Corner.turns then
        verdict o (((corners points).map Corner.angle).foldl (· + ·) 0)
      else .error .degenerate := by
  rw [orientation?, if_neg (Nat.not_lt.mpr enough), foldlM_step fits (.inl rfl)]
  cases (corners points).any Corner.turns
  · rfl
  · rfl

theorem fits_of_orientation? (convex : orientation? points = .ok o) :
    3 ≤ points.length ∧ ∀ c ∈ corners points, c.Fits o := by
  unfold orientation? at convex
  split at convex
  · cases convex
  · next enough =>
    refine ⟨Nat.not_lt.mp enough, ?_⟩
    cases walk : (corners points).foldlM Walk.step ⟨none, 0⟩ with
    | error e =>
      rw [walk] at convex
      cases convex
    | ok w =>
      simp only [walk, bind, Except.bind] at convex
      split at convex
      · cases convex
      · next seen =>
        split at convex
        · cases convex
        · cases convex
          exact (fits_of_foldlM walk (.inr seen)).1

end Tangible.Polygon
