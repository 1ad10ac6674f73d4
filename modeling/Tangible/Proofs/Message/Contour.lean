import Tangible.Proofs.Message.Flat

/-!
# Inner contours read back

Contours are told apart by the separators between them, so the reader finds every contour again,
empty ones included, and the arguments it accepts are those that the contours are written with
(`Run.ofContours_of_contours?`). Only the list of one empty contour has neither a point nor a
separator to show. It is written like the list of no contours and read as that
(`InnerContours.blank_contour_lost`); `InnerContours.reads_back_unless_blank` says that nothing
else is lost.
-/

namespace Tangible

open Osc (Arg)

namespace Run

/-- Separators stand in front of all contours but the first one. -/
theorem ofContours_cons (first : List Point2) (others : List (List Point2)) :
    ofContours (first :: others) =
      ofPoints first ++ others.flatMap (.bool true :: ofPoints ·) := by
  induction others generalizing first with
  | nil => exact (List.append_nil _).symm
  | cons next others ih =>
    rw [ofContours, ih, List.flatMap_cons, List.cons_append]
    exact fun none => List.cons_ne_nil _ _ none

/-- A point goes to the front of the first contour. -/
theorem ofContours_cons_cons (p : Point2) (contour : List Point2) (others : List (List Point2)) :
    ofContours ((p :: contour) :: others) = ofPoint2 p ++ ofContours (contour :: others) := by
  rw [ofContours_cons, ofContours_cons, ofPoints, List.flatMap_cons, List.append_assoc]
  rfl

theorem ofContours_of_separated? {args : List Arg} {first : List Point2}
    {others : List (List Point2)} (read : separated? args = some (first, others)) :
    ofContours (first :: others) = args := by
  fun_induction separated? args generalizing first others with
  | case1 =>
    cases read
    rfl
  | case2 x y rest ih =>
    obtain ⟨⟨contour, others⟩, behind, same⟩ := Option.map_eq_some_iff.mp read
    cases same
    rw [ofContours_cons_cons, ih behind]
    rfl
  | case3 rest ih =>
    obtain ⟨⟨contour, others⟩, behind, same⟩ := Option.map_eq_some_iff.mp read
    cases same
    show Arg.bool true :: ofContours (contour :: others) = _
    rw [ih behind]
  | case4 => cases read

theorem ofContours_of_contours? {args : List Arg} {contours : List (List Point2)}
    (read : contours? args = some contours) : ofContours contours = args := by
  cases args with
  | nil =>
    cases read
    rfl
  | cons arg rest =>
    obtain ⟨⟨first, others⟩, found, rfl⟩ := Option.map_eq_some_iff.mp read
    exact ofContours_of_separated? found

end Run

namespace InnerContours

theorem args_of_ofArgs? {args : List Arg} {i : InnerContours} (read : ofArgs? args = some i) :
    i.args = args := by
  unfold ofArgs? at read
  split at read
  · obtain ⟨contours, found, rfl⟩ := Option.map_eq_some_iff.mp read
    show Arg.ofId _ :: Run.ofContours contours = _
    rw [Run.ofContours_of_contours? found, Arg.ofId_toUInt32]
  · cases read

/-- What the arguments of one empty contour are read as. -/
theorem ofArgs?_args_blank {i : InnerContours} (blank : i.contours = [[]]) :
    ofArgs? i.args = some { i with contours := [] } := by
  obtain ⟨session, contours⟩ := i
  subst blank
  show some (InnerContours.mk session.toInt32.toUInt32 []) = _
  rw [UInt32.toUInt32_toInt32]

/-- Contours are read back from their arguments unless they are one empty contour, which is read as
none. All arguments that they are read from are the ones that they are written with. -/
theorem reads_back_unless_blank (i : InnerContours) :
    (ofArgs? i.args = some i ↔ i.contours ≠ [[]]) ∧
      (i.contours = [[]] → ofArgs? i.args = some { i with contours := [] }) ∧
      ∀ args, ofArgs? args = some i → i.args = args := by
  refine ⟨⟨fun read blank => ?_, ofArgs?_args⟩, ofArgs?_args_blank, fun _ => args_of_ofArgs?⟩
  rw [ofArgs?_args_blank blank] at read
  have none : [] = i.contours := congrArg contours (Option.some.inj read)
  rw [blank] at none
  cases none

/-- Empty contours before, between and behind others. -/
def gaps : InnerContours := ⟨8, [[], [⟨1, 2⟩, ⟨3, 4⟩], [], [⟨5, 6⟩], []]⟩

def gapsArgs : List Arg :=
  [.int 8, .bool true, .float 1, .float 2, .float 3, .float 4, .bool true, .bool true, .float 5,
    .float 6, .bool true]

theorem reads_back_unless_blank_gaps :
    (gaps.contours ≠ [[]] ∧ ofArgs? gaps.args = some gaps) ∧
      (ofArgs? gapsArgs = some gaps ∧ gaps.args = gapsArgs) ∧
      ofArgs? (args ⟨8, [[]]⟩) = some ⟨8, []⟩ := by
  obtain ⟨back, -, again⟩ := reads_back_unless_blank gaps
  obtain ⟨-, blank, -⟩ := reads_back_unless_blank ⟨8, [[]]⟩
  have some : gaps.contours ≠ [[]] := nofun
  have read : ofArgs? gapsArgs = .some gaps := rfl
  exact ⟨⟨some, back.mpr some⟩, ⟨read, again gapsArgs read⟩, blank rfl⟩

/-- One empty contour is not read back. -/
theorem blank_contour_lost : ¬ ∀ i : InnerContours, ofArgs? i.args = some i := by
  intro all
  have read := all ⟨8, [[]]⟩
  cases read

end InnerContours

end Tangible
