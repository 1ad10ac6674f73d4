import Tangible.Proofs.Geometry.Copies
import Tangible.Proofs.Geometry.Straight

/-!
# Orientations of polygons with repeated vertices

A walk around a polygon with repeated vertices is stopped nowhere, since the corners at edges
without length are straight. But these corners stand in the place of the one at the vertex, so its
turn and its angle are lost, and half turns may come in (`bends`). `repeats_lose_turns` says what
becomes of a convex polygon, and `closed_square_refused` that a repeated vertex may cost it.
-/

namespace Tangible.Polygon

open Binary

/-! ## Bends -/

/-- The angles at a vertex: its own where it is given once, else those of the edges without length
beside the edge before it and beside the edge behind it. -/
def Corner.bends (c : Corner) : Nat → List Single
  | 0 => [c.angle]
  | _ + 1 => [arriving c.before c.vertex, leaving c.vertex c.behind]

/-- The angles all around the polygon. A walk that begins among copies of the first vertex begins
with the edge that leaves them. -/
def bends (vs : List Vertex) (closing : Nat) : List Single :=
  let all := (marked vs closing).flatMap fun e => e.1.bends e.2
  match vs with
  | first :: _ => if first.again = 0 then all else all.getLast?.toList ++ all.dropLast
  | [] => all

/-- Some corner turns whose vertex is given once. -/
def turnsOnce (vs : List Vertex) (closing : Nat) : Bool :=
  (marked vs closing).any fun e => e.2 == 0 && e.1.turns

/-! ## What a walk makes of corners -/

/-- Two lists of angles have the same sums up to the sign of a zero. -/
def Level (angles angles' : List Single) : Prop :=
  ∀ w w', Agree w w' → Agree (angles.foldl (· + ·) w) (angles'.foldl (· + ·) w')

variable {o : Orientation} {cs cs' : List Corner} {turns turns' : Bool}
  {angles angles' : List Single} {a b : Point2}

/-- A walk with that orientation is not stopped at the corners, it sees a turn there or sees none,
and it adds up the same as the angles. -/
structure Passes (o : Orientation) (cs : List Corner) (turns : Bool) (angles : List Single) :
    Prop where
  fits : ∀ c ∈ cs, c.Fits o
  turns_eq : cs.any Corner.turns = turns
  level : Level (cs.map Corner.angle) angles

theorem Passes.nil : Passes o [] false [] := ⟨nofun, rfl, fun _ _ => id⟩

theorem Passes.append (h : Passes o cs turns angles) (h' : Passes o cs' turns' angles') :
    Passes o (cs ++ cs') (turns || turns') (angles ++ angles') where
  fits := List.forall_mem_append.mpr ⟨h.fits, h'.fits⟩
  turns_eq := by rw [List.any_append, h.turns_eq, h'.turns_eq]
  level w w' same := by
    rw [List.map_append, List.foldl_append, List.foldl_append]
    exact h'.level _ _ (h.level _ _ same)

theorem Passes.corner {c : Corner} (fits : c.Fits o) : Passes o [c] c.turns [c.angle] where
  fits := List.forall_mem_singleton.mpr fits
  turns_eq := by simp
  level _ _ same := same.add_right _

theorem Passes.straight {c : Corner} {x : Single} (straight : c.Straight)
    (same : Agree c.angle x) : Passes o [c] false [x] where
  fits := List.forall_mem_singleton.mpr (.inr straight)
  turns_eq := by simp [straight.turns_eq]
  level _ _ sums := sums.add same

theorem Passes.nothing {c : Corner} (straight : c.Straight) (same : Agree c.angle 0) :
    Passes o [c] false [] where
  fits := List.forall_mem_singleton.mpr (.inr straight)
  turns_eq := by simp [straight.turns_eq]
  level w _ sums := by
    have dropped : Agree (w + 0) w := zero_positive ▸ agree_add_zero w .positive
    exact ((same.add_left w).trans dropped).trans sums

theorem Passes.staying (finite : b.Finite) (k : Nat) :
    Passes o (List.replicate k ⟨b, b, b, 0⟩) false [] := by
  induction k with
  | zero => exact .nil
  | succ k ih =>
    exact (Passes.nothing (straight_leaving finite 0) (angle_staying finite 0)).append ih

theorem Passes.arriving (finite : b.Finite) (k : Nat) :
    Passes o ((Corner.mk a b b 0).run k) false [arriving a b] := by
  rw [run_arriving]
  exact (Passes.straight (straight_arriving finite 0) (angle_arriving finite 0)).append
    (.staying finite k)

theorem Passes.leaving (finite : a.Finite) (k : Nat) :
    Passes o ((Corner.mk a a b 0).run k) false [leaving a b] := by
  rw [run_leaving]
  exact (Passes.staying finite k).append
    (.straight (straight_leaving finite 0) (angle_leaving finite 0))

theorem Passes.run {c : Corner} (finite : c.vertex.Finite) (fits : c.Fits o) (k : Nat) :
    Passes o (c.run k) (k == 0 && c.turns) (c.bends k) := by
  cases k with
  | zero => exact .corner fits
  | succ k =>
    exact ((Passes.straight (straight_arriving finite 0) (angle_arriving finite 0)).append
      (.staying finite k)).append (.straight (straight_leaving finite 0) (angle_leaving finite 0))

theorem Passes.runs {marks : List (Corner × Nat)}
    (h : ∀ e ∈ marks, e.1.vertex.Finite ∧ e.1.Fits o) :
    Passes o (marks.flatMap fun e => e.1.run e.2)
      (marks.any fun e => e.2 == 0 && e.1.turns) (marks.flatMap fun e => e.1.bends e.2) := by
  induction marks with
  | nil => exact .nil
  | cons e marks ih =>
    obtain ⟨first, rest⟩ := List.forall_mem_cons.mp h
    rw [List.flatMap_cons, List.flatMap_cons, List.any_cons]
    exact (Passes.run first.1 first.2 e.2).append (ih rest)

/-! ## Repeated vertices -/

variable {vs : List Vertex} {second : Vertex} {others : List Vertex} {closing : Nat}

theorem bends_unnumbered (marks : List (Corner × Nat)) :
    (marks.map unnumberedMark).flatMap (fun e => e.1.bends e.2) =
      marks.flatMap fun e => e.1.bends e.2 := by
  rw [List.flatMap_map]
  congr 1

theorem passes_repeated {first : Vertex} (finite : first.point.Finite)
    (fits : ∀ e ∈ (marked (first :: second :: others) closing).map unnumberedMark,
      e.1.vertex.Finite ∧ e.1.Fits o) :
    Passes o ((corners (repeated (first :: second :: others) closing)).map Corner.unnumbered)
      (turnsOnce (first :: second :: others) closing)
      (bends (first :: second :: others) closing) := by
  have turns : turnsOnce (first :: second :: others) closing =
      ((marked (first :: second :: others) closing).map unnumberedMark).any
        fun e => e.2 == 0 && e.1.turns := by
    rw [List.any_map]
    rfl
  obtain ⟨p, again⟩ := first
  cases again with
  | zero =>
    rw [runs_zero, turns, bends, if_pos rfl, ← bends_unnumbered]
    exact .runs fits
  | succ again =>
    obtain ⟨marks, last, all, run⟩ := exists_runs_succ p again second others closing
    rw [all, List.forall_mem_append] at fits
    have closes : again + 1 + closing = again + closing + 1 := by omega
    have kept : turnsOnce (⟨p, again + 1⟩ :: second :: others) closing =
        (false || (marks.any (fun e => e.2 == 0 && e.1.turns) || false)) := by
      rw [turns, all, List.any_append, closes]
      simp
    have angles : bends (⟨p, again + 1⟩ :: second :: others) closing =
        [leaving p second.point] ++
          (marks.flatMap (fun e => e.1.bends e.2) ++ [arriving last p]) := by
      rw [bends, if_neg (Nat.succ_ne_zero again), ← bends_unnumbered, all, List.flatMap_append,
        closes]
      simp [Corner.bends]
    rw [run, kept, angles]
    exact (Passes.leaving finite again).append
      ((Passes.runs fits.1).append (.arriving finite closing))

theorem verdict_congr {w w' : Single} (same : Agree w w') : verdict o w = verdict o w' := by
  rw [verdict, verdict, sub_eq, div_eq, sub_eq, div_eq, same.magnitude_eq]

theorem eq_of_verdict {o' : Orientation} {w : Single} (h : verdict o w = .ok o') : o' = o := by
  unfold verdict at h
  split at h
  · cases h
  · cases h
    rfl

theorem orientation?_of_passes {points : List Point2} (enough : 3 ≤ points.length)
    (passes : Passes o ((corners points).map Corner.unnumbered) turns angles) :
    orientation? points =
      if turns then verdict o (angles.foldl (· + ·) 0) else .error .degenerate := by
  have fits : ∀ c ∈ corners points, c.Fits o := fun c mem =>
    passes.fits c.unnumbered (List.mem_map_of_mem mem)
  have turning : (corners points).any Corner.turns = turns := by
    rw [← passes.turns_eq, List.any_map]
    rfl
  have sums := passes.level 0 0 (.refl 0)
  rw [List.map_map] at sums
  rw [orientation?_of_fits enough fits, turning]
  congr 1
  exact verdict_congr sums

/-- What is said of a polygon with repeated vertices. -/
theorem orientation?_repeated (finite : ∀ v ∈ vs, v.point.Finite)
    (convex : orientation? (once vs) = .ok o) (closing : Nat) :
    orientation? (repeated vs closing) =
      if turnsOnce vs closing then verdict o ((bends vs closing).foldl (· + ·) 0)
      else .error .degenerate := by
  obtain ⟨enough, fits⟩ := fits_of_orientation? convex
  have points : ∀ p ∈ once vs, p.Finite := List.forall_mem_map.mpr finite
  have corner (e) (mem : e ∈ (marked vs closing).map unnumberedMark) :
      e.1.vertex.Finite ∧ e.1.Fits o := by
    obtain ⟨⟨c, again⟩, mark, rfl⟩ := List.mem_map.mp mem
    have inside : c ∈ corners (once vs) := (List.of_mem_zip mark).1
    exact ⟨points c.vertex (vertex_mem_of_mem_corners inside), fits c inside⟩
  refine orientation?_of_passes (enough.trans (length_once_le vs closing)) ?_
  match vs with
  | [] | [_] => simp [once] at enough
  | first :: second :: others =>
    exact passes_repeated (finite first (List.mem_cons_self ..)) corner

/-! ## Points in polygons -/

/-- Whether the point is on the inner side of the edge, or on its line. -/
def onSide (o : Orientation) (p : Point2) (edge : Point2 × Point2) : Bool :=
  cross edge.1 edge.2 p * o.sign ≥ 0

/-- A point is beside an edge without length if it can be measured from there. -/
theorem onSide_nothing (finite : b.Finite) (o : Orientation) (p : Point2) :
    onSide o p (b, b) = spans b p := by
  rw [onSide, cross_leaving finite]
  by_cases measured : spans b p
  · obtain ⟨mx, my⟩ := Bool.and_eq_true_iff.mp measured
    obtain ⟨s, sx⟩ := exists_signed mx
    obtain ⟨t, sy⟩ := exists_signed my
    rw [measured, Binary.zero_mul sx, Binary.zero_mul sy, zero_sub_zero]
    cases o <;> cases both t (-s) <;> decide
  · rw [cross_undefined measured, eq_false_of_ne_true measured]
    cases o <;> decide

theorem contains?_eq {points : List Point2} (convex : orientation? points = .ok o) (p : Point2) :
    contains? points p = .ok ((points.zip (rotated points)).all (onSide o p)) := by
  rw [contains?, convex]
  rfl

theorem contains?_repeated (finite : ∀ v ∈ vs, v.point.Finite)
    (convex : orientation? (repeated vs closing) = .ok o) (p : Point2) :
    contains? (repeated vs closing) p =
      .ok (((once vs).zip (rotated (once vs))).all (onSide o p) &&
        ((once vs).zip (repetitions vs closing)).all fun e => e.2 == 0 || spans e.1 p) := by
  have points : ∀ p ∈ once vs, p.Finite := List.forall_mem_map.mpr finite
  rw [contains?_eq convex, all_pairs_repeated]
  congr 2
  rw [Bool.eq_iff_iff, List.all_eq_true, List.all_eq_true]
  refine forall₂_congr fun e mem => ?_
  rw [onSide_nothing (points e.1 (List.of_mem_zip mem).1)]

/-- A convex polygon with repeated vertices. The corner at a vertex that is given again does not
turn any more, and the rest of the corners decide: the polygon is degenerate if none of them turns,
and winds wrongly unless the angles that are left make one turn; else it has the same orientation.
Then it contains the same points, less those that are infinitely far from a repeated vertex. -/
theorem repeats_lose_turns (finite : ∀ v ∈ vs, v.point.Finite)
    (convex : orientation? (once vs) = .ok o) (closing : Nat) :
    (orientation? (repeated vs closing) =
      if turnsOnce vs closing then verdict o ((bends vs closing).foldl (· + ·) 0)
      else .error .degenerate) ∧
    ∀ p, ∃ inside, contains? (once vs) p = .ok inside ∧
      contains? (repeated vs closing) p = (orientation? (repeated vs closing)).map fun _ =>
        inside && ((once vs).zip (repetitions vs closing)).all fun (v, again) =>
          again == 0 || spans v p := by
  have decided := orientation?_repeated finite convex closing
  refine ⟨decided, fun p => ⟨_, contains?_eq convex p, ?_⟩⟩
  cases said : orientation? (repeated vs closing) with
  | error e =>
    rw [contains?, said]
    rfl
  | ok o' =>
    obtain rfl : o' = o := by
      rw [said] at decided
      split at decided
      · exact eq_of_verdict decided.symm
      · cases decided
    exact contains?_repeated finite said p

/-- A square with the middle of one side among its vertices, which is given twice again. -/
def halved : List Vertex :=
  [⟨⟨0, 0⟩, 0⟩, ⟨⟨1, 0⟩, 2⟩, ⟨⟨2, 0⟩, 0⟩, ⟨⟨2, 2⟩, 0⟩, ⟨⟨0, 2⟩, 0⟩]

theorem repeats_lose_turns_halved :
    (∀ v ∈ halved, v.point.Finite) ∧
      orientation? (once halved) = .ok .counterclockwise ∧
      orientation? (repeated halved 0) = .ok .counterclockwise ∧
      contains? (repeated halved 0) ⟨1, 1⟩ = .ok true ∧
      orientation? (repeated halved 1) ≠ .ok .counterclockwise := by
  have finite : ∀ v ∈ halved, v.point.Finite := by
    simp only [halved, List.forall_mem_cons, Point2.Finite]
    decide
  have convex : orientation? (once halved) = .ok .counterclockwise := by decide +kernel
  obtain ⟨kept, same⟩ := repeats_lose_turns finite convex 0
  obtain ⟨lost, -⟩ := repeats_lose_turns finite convex 1
  have accepted : orientation? (repeated halved 0) = .ok .counterclockwise :=
    kept.trans (by decide +kernel)
  obtain ⟨inside, before, after⟩ := same ⟨1, 1⟩
  have centre : contains? (once halved) ⟨1, 1⟩ = .ok true := by decide +kernel
  obtain rfl : true = inside := Except.ok.inj (centre.symm.trans before)
  refine ⟨finite, convex, accepted, ?_, ?_⟩
  · rw [after, accepted]
    decide +kernel
  · rw [lost]
    decide +kernel

def square : List Point2 := [⟨0, 0⟩, ⟨1, 0⟩, ⟨1, 1⟩, ⟨0, 1⟩]

/-- A square is refused as soon as its first corner is given again, beside itself or at the end. -/
theorem closed_square_refused :
    orientation? square = .ok .counterclockwise ∧
      (∀ o, orientation? (⟨0, 0⟩ :: square) ≠ .ok o) ∧
      ∀ o, orientation? (square ++ [⟨0, 0⟩]) ≠ .ok o := by
  refine ⟨by decide +kernel, ?_, ?_⟩
  · rintro (_ | _) <;> decide +kernel
  · rintro (_ | _) <;> decide +kernel

end Tangible.Polygon
