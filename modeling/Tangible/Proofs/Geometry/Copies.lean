import Tangible.Geometry.Polygon
import Tangible.Proofs.Lists

/-!
# Polygons with repeated vertices

Every vertex of a polygon may be given again, any number of times, right behind itself, and the
first one at the end (`repeated`). All around the polygon the corner at a vertex stays where this is
given once, and where it is given again it becomes a corner at each end of the edges without length
(`Corner.run`, `runs_zero`, `exists_runs_succ`). The edges stay, and edges without length join them
(`all_pairs_repeated`). Corners are compared without their numbers.
-/

namespace Tangible.Polygon

/-- A vertex, and how often it is given again right behind itself. -/
structure Vertex where
  point : Point2
  again : Nat

def Vertex.copies (v : Vertex) : List Point2 := List.replicate (v.again + 1) v.point

def once (vs : List Vertex) : List Point2 := vs.map Vertex.point

/-- All copies of the vertices in their order. -/
def spread (vs : List Vertex) : List Point2 := vs.flatMap Vertex.copies

/-- The polygon with all copies, and the first vertex given again at the end. -/
def repeated : List Vertex → Nat → List Point2
  | [], _ => []
  | first :: rest, closing => spread (first :: rest) ++ List.replicate closing first.point

/-- How often each vertex is given again all around the polygon. -/
def repetitions : List Vertex → Nat → List Nat
  | [], _ => []
  | first :: rest, closing => (first.again + closing) :: rest.map Vertex.again

/-- The corners of the polygon, each with the number of repetitions of its vertex. -/
def marked (vs : List Vertex) (closing : Nat) : List (Corner × Nat) :=
  (corners (once vs)).zip (rotated (repetitions vs closing))

theorem repeated_cons (p : Point2) (again : Nat) (rest : List Vertex) (closing : Nat) :
    repeated (⟨p, again⟩ :: rest) closing =
      p :: (List.replicate again p ++ spread rest ++ List.replicate closing p) := by
  simp [repeated, spread, Vertex.copies, List.replicate_succ]

theorem length_once_le (vs : List Vertex) (closing : Nat) :
    (once vs).length ≤ (repeated vs closing).length := by
  cases vs with
  | nil => exact Nat.le_refl 0
  | cons v vs =>
    have copies : (once (v :: vs)).length ≤ (spread (v :: vs)).length := by
      rw [once, List.length_map]
      exact length_le_flatMap fun v => by simp [Vertex.copies]
    rw [repeated, List.length_append]
    exact Nat.le_add_right_of_le copies

theorem mem_rotated {α : Type} {x : α} {l : List α} : x ∈ rotated l ↔ x ∈ l := by
  cases l with
  | nil => rfl
  | cons y l => rw [rotated, List.mem_append, List.mem_singleton, List.mem_cons, or_comm]

theorem vertex_mem_of_mem_corners {c : Corner} {l : List Point2} (mem : c ∈ corners l) :
    c.vertex ∈ l := by
  obtain ⟨⟨before, vertex, behind, i⟩, inside, rfl⟩ := List.mem_map.mp mem
  exact mem_rotated.mp (List.of_mem_zip (List.of_mem_zip inside).2).1

/-! ## Corners of lists -/

def Corner.unnumbered (c : Corner) : Corner := { c with index := 0 }

/-- Three points in a row, from the beginning of the list to its end. -/
def trios : List Point2 → List Corner
  | a :: b :: c :: rest => ⟨a, b, c, 0⟩ :: trios (b :: c :: rest)
  | _ => []

theorem trios_eq_zip (a b : Point2) {l : List Point2} {is : List Nat}
    (same : l.length = is.length) :
    ((a :: b :: l).zip ((b :: l).zip (l.zip is))).map
        (fun (a, b, c, i) => (Corner.mk a b c i).unnumbered) = trios (a :: b :: l) := by
  induction l generalizing a b is with
  | nil => rfl
  | cons c l ih =>
    cases is with
    | nil => cases same
    | cons i is => exact congrArg (_ :: ·) (ih b c (Nat.succ.inj same))

/-- The corners of a polygon are those of the list that goes on with its first two points. -/
theorem unnumbered_corners (a b : Point2) (l : List Point2) :
    (corners (a :: b :: l)).map Corner.unnumbered = trios (a :: b :: l ++ [a, b]) := by
  let third := (l ++ [a, b]).zip (rotated (List.range (l.length + 2)))
  have size : third.length = l.length + 2 := by
    simp [third, rotated, List.range_succ_eq_map]
  have second : (b :: (l ++ [a, b])).zip third = (rotated (a :: b :: l)).zip third := by
    have longer : b :: (l ++ [a, b]) = rotated (a :: b :: l) ++ [b] := by simp [rotated]
    rw [longer, zip_append_of_length_eq _ _ (by simp [rotated, size])]
  have first : (a :: b :: (l ++ [a, b])).zip ((rotated (a :: b :: l)).zip third) =
      (a :: b :: l).zip ((rotated (a :: b :: l)).zip third) := by
    rw [← List.cons_append, ← List.cons_append]
    exact zip_append_of_length_eq _ _ (by simp [rotated, size])
  have around : rotated (rotated (a :: b :: l)) = l ++ [a, b] := by simp [rotated]
  have same : (l ++ [a, b]).length = (rotated (List.range (l.length + 2))).length := by
    simp [rotated, List.range_succ_eq_map]
  rw [corners, around, List.map_map]
  refine Eq.trans ?_ (trios_eq_zip a b same)
  exact congrArg (List.map _) ((congrArg _ second).trans first).symm

theorem trios_concat (l : List Point2) (a b c : Point2) :
    trios (l ++ [a, b, c]) = trios (l ++ [a, b]) ++ [⟨a, b, c, 0⟩] := by
  induction l with
  | nil => rfl
  | cons x l ih =>
    match l with
    | [] | [_] => rfl
    | y :: z :: l => exact congrArg (_ :: ·) ih

theorem length_trios (a b : Point2) (l : List Point2) :
    (trios (a :: b :: l)).length = l.length := by
  induction l generalizing a b with
  | nil => rfl
  | cons c l ih => exact congrArg (· + 1) (ih b c)

/-- The corners at the copies of a vertex that is given so many times again. -/
def Corner.run (c : Corner) : Nat → List Corner
  | 0 => [c.unnumbered]
  | again + 1 =>
    ⟨c.before, c.vertex, c.vertex, 0⟩ :: List.replicate again ⟨c.vertex, c.vertex, c.vertex, 0⟩ ++
      [⟨c.vertex, c.vertex, c.behind, 0⟩]

theorem run_leaving (a b : Point2) (k : Nat) :
    (Corner.mk a a b 0).run k = List.replicate k ⟨a, a, a, 0⟩ ++ [⟨a, a, b, 0⟩] := by
  cases k with
  | zero => rfl
  | succ k => rw [Corner.run, List.replicate_succ]

theorem run_arriving (a b : Point2) (k : Nat) :
    (Corner.mk a b b 0).run k = ⟨a, b, b, 0⟩ :: List.replicate k ⟨b, b, b, 0⟩ := by
  cases k with
  | zero => rfl
  | succ k => rw [Corner.run, List.cons_append, ← List.replicate_succ']

theorem trios_replicate (a b c : Point2) (rest : List Point2) (k : Nat) :
    trios (a :: List.replicate (k + 1) b ++ c :: rest) =
      (Corner.mk a b c 0).run k ++ trios (b :: c :: rest) := by
  induction k generalizing a with
  | zero => rfl
  | succ k ih =>
    have first : trios (a :: List.replicate (k + 2) b ++ c :: rest) =
        ⟨a, b, b, 0⟩ :: trios (b :: List.replicate (k + 1) b ++ c :: rest) := rfl
    rw [first, ih b, run_leaving]
    rfl

theorem exists_spread_concat (vs : List Vertex) (c : Point2) :
    ∃ d tail tail', once vs ++ [c] = d :: tail ∧ spread vs ++ [c] = d :: tail' := by
  cases vs with
  | nil => exact ⟨c, [], [], rfl, rfl⟩
  | cons v vs => exact ⟨v.point, _, _, rfl, rfl⟩

/-- The corners along copies of vertices are the runs at the corners along the vertices. -/
theorem trios_spread (a : Point2) (vs : List Vertex) (c : Point2) :
    trios (a :: spread vs ++ [c]) =
      ((trios (a :: once vs ++ [c])).zip (vs.map Vertex.again)).flatMap
        fun e => e.1.run e.2 := by
  induction vs generalizing a with
  | nil => rfl
  | cons v vs ih =>
    obtain ⟨d, tail, tail', points, copies⟩ := exists_spread_concat vs c
    have split : a :: spread (v :: vs) ++ [c] =
        a :: List.replicate (v.again + 1) v.point ++ d :: tail' := by
      rw [← copies, spread, List.flatMap_cons]
      simp [Vertex.copies, spread]
    have ih := ih v.point
    rw [List.cons_append, copies, List.cons_append, points] at ih
    have points' : a :: once (v :: vs) ++ [c] = a :: v.point :: d :: tail := by
      rw [← points]
      rfl
    rw [split, trios_replicate, ih, points', trios]
    rfl

/-! ## Corners of repeated polygons -/

/-- A polygon whose first vertex is given once at the beginning. -/
theorem corners_repeated_zero (p : Point2) (second : Vertex) (others : List Vertex)
    (closing : Nat) :
    (corners (repeated (⟨p, 0⟩ :: second :: others) closing)).map Corner.unnumbered =
      trios (p :: spread (second :: others ++ [⟨p, closing⟩]) ++ [second.point]) := by
  have split : repeated (⟨p, 0⟩ :: second :: others) closing =
      p :: second.point :: (List.replicate second.again second.point ++ spread others ++
        List.replicate closing p) := repeated_cons ..
  have goesOn : p :: second.point :: (List.replicate second.again second.point ++ spread others ++
        List.replicate closing p) ++ [p, second.point] =
      p :: spread (second :: others ++ [⟨p, closing⟩]) ++ [second.point] := by
    simp [spread, Vertex.copies, List.replicate_succ, replicate_append_cons]
  rw [split, unnumbered_corners, goesOn]

/-- A polygon that begins with copies of its first vertex. -/
theorem corners_repeated_succ (p : Point2) (again : Nat) (rest : List Vertex) (closing : Nat) :
    (corners (repeated (⟨p, again + 1⟩ :: rest) closing)).map Corner.unnumbered =
      trios (p :: spread (⟨p, again⟩ :: rest ++ [⟨p, closing⟩]) ++ [p]) := by
  have split : repeated (⟨p, again + 1⟩ :: rest) closing =
      p :: p :: (List.replicate again p ++ spread rest ++ List.replicate closing p) :=
    repeated_cons ..
  have goesOn : p :: p :: (List.replicate again p ++ spread rest ++ List.replicate closing p) ++
        [p, p] =
      p :: spread (⟨p, again⟩ :: rest ++ [⟨p, closing⟩]) ++ [p] := by
    simp [spread, Vertex.copies, List.replicate_succ, replicate_append_cons]
  rw [split, unnumbered_corners, goesOn]

def unnumberedMark (e : Corner × Nat) : Corner × Nat := (e.1.unnumbered, e.2)

theorem unnumbered_marked (first second : Vertex) (others : List Vertex) (closing : Nat) :
    (marked (first :: second :: others) closing).map unnumberedMark =
      (trios (first.point :: once (second :: others) ++ [first.point, second.point])).zip
        ((second :: others).map Vertex.again ++ [first.again + closing]) := by
  have numbers : rotated (repetitions (first :: second :: others) closing) =
      (second :: others).map Vertex.again ++ [first.again + closing] := rfl
  have points : first.point :: once (second :: others) ++ [first.point, second.point] =
      first.point :: second.point :: once others ++ [first.point, second.point] := rfl
  rw [points, ← unnumbered_corners, marked, numbers, List.zip_map_left]
  rfl

/-- Where the first vertex is given once at the beginning, the corners are the runs at the corners
of the polygon. -/
theorem runs_zero (p : Point2) (second : Vertex) (others : List Vertex) (closing : Nat) :
    (corners (repeated (⟨p, 0⟩ :: second :: others) closing)).map Corner.unnumbered =
      ((marked (⟨p, 0⟩ :: second :: others) closing).map unnumberedMark).flatMap
        fun e => e.1.run e.2 := by
  have points : p :: once (second :: others ++ [⟨p, closing⟩]) ++ [second.point] =
      p :: once (second :: others) ++ [p, second.point] := by simp [once]
  have numbers : (second :: others ++ [Vertex.mk p closing]).map Vertex.again =
      (second :: others).map Vertex.again ++ [0 + closing] := by simp
  rw [corners_repeated_zero, trios_spread, points, numbers, unnumbered_marked]

/-- Where copies of the first vertex are at the beginning, the last run is divided: what leaves the
vertex comes first, and what arrives there last. -/
theorem exists_runs_succ (p : Point2) (again : Nat) (second : Vertex) (others : List Vertex)
    (closing : Nat) :
    ∃ marks last,
      (marked (⟨p, again + 1⟩ :: second :: others) closing).map unnumberedMark =
          marks ++ [(⟨last, p, second.point, 0⟩, again + 1 + closing)] ∧
        (corners (repeated (⟨p, again + 1⟩ :: second :: others) closing)).map Corner.unnumbered =
          (Corner.mk p p second.point 0).run again ++
            (marks.flatMap (fun e => e.1.run e.2) ++ (Corner.mk last p p 0).run closing) := by
  obtain ⟨front, last, split⟩ : ∃ front last, p :: once (second :: others) = front ++ [last] :=
    ⟨_, _, (List.dropLast_append_getLast (List.cons_ne_nil _ _)).symm⟩
  let inner := trios (p :: once (second :: others) ++ [p])
  have ends (c : Point2) : trios (p :: once (second :: others) ++ [p, c]) =
      inner ++ [⟨last, p, c, 0⟩] := by
    simp only [inner, split, List.append_assoc, List.singleton_append]
    exact trios_concat front last p c
  have size : inner.length = ((second :: others).map Vertex.again).length := by
    simp [inner, once, length_trios]
  refine ⟨inner.zip ((second :: others).map Vertex.again), last, ?_, ?_⟩
  · rw [unnumbered_marked, ends, List.zip_append size]
    rfl
  · have points : p :: once (⟨p, again⟩ :: second :: others ++ [⟨p, closing⟩]) ++ [p] =
        p :: p :: second.point :: (once others ++ [p, p]) := by simp [once]
    have numbers : (⟨p, again⟩ :: second :: others ++ [Vertex.mk p closing]).map Vertex.again =
        again :: ((second :: others).map Vertex.again ++ [closing]) := by simp
    have rest : trios (p :: second.point :: (once others ++ [p, p])) =
        inner ++ [⟨last, p, p, 0⟩] := ends p
    rw [corners_repeated_succ, trios_spread, points, numbers, trios, rest, List.zip_cons_cons,
      List.zip_append size, List.flatMap_cons, List.flatMap_append]
    simp

/-! ## Edges of lists -/

/-- Two points in a row, from the beginning of the list to its end. -/
def pairs : List Point2 → List (Point2 × Point2)
  | a :: b :: rest => (a, b) :: pairs (b :: rest)
  | _ => []

theorem zip_rotated (a : Point2) (l : List Point2) :
    (a :: l).zip (rotated (a :: l)) = pairs (a :: l ++ [a]) := by
  have general (x : Point2) : (x :: l).zip (l ++ [a]) = pairs (x :: l ++ [a]) := by
    induction l generalizing x with
    | nil => rfl
    | cons y l ih => exact congrArg (_ :: ·) (ih y)
  exact general a

theorem pairs_replicate (a : Point2) (n : Nat) (l : List Point2) :
    pairs (a :: (List.replicate n a ++ l)) = List.replicate n (a, a) ++ pairs (a :: l) := by
  induction n with
  | zero => rfl
  | succ n ih =>
    rw [List.replicate_succ, List.cons_append, pairs, ih]
    rfl

theorem all_pairs_spread (f : Point2 × Point2 → Bool) (a : Point2) (vs : List Vertex) :
    (pairs (a :: spread vs)).all f =
      ((pairs (a :: once vs)).all f && vs.all fun v => v.again == 0 || f (v.point, v.point)) := by
  induction vs generalizing a with
  | nil => rfl
  | cons v vs ih =>
    have split : a :: spread (v :: vs) =
        a :: v.point :: (List.replicate v.again v.point ++ spread vs) := by
      simp [spread, Vertex.copies, List.replicate_succ]
    have points : a :: once (v :: vs) = a :: v.point :: once vs := rfl
    rw [split, points, pairs, pairs, pairs_replicate, List.all_cons, List.all_cons, List.all_append,
      ih, all_replicate, List.all_cons]
    ac_rfl

/-- The edges of the polygon, and an edge without length at every vertex that is given again. -/
theorem all_pairs_repeated (f : Point2 × Point2 → Bool) (vs : List Vertex) (closing : Nat) :
    ((repeated vs closing).zip (rotated (repeated vs closing))).all f =
      (((once vs).zip (rotated (once vs))).all f &&
        ((once vs).zip (repetitions vs closing)).all fun e => e.2 == 0 || f (e.1, e.1)) := by
  cases vs with
  | nil => rfl
  | cons first rest =>
    obtain ⟨p, again⟩ := first
    have closed : p :: (List.replicate again p ++ spread rest ++ List.replicate closing p) ++ [p] =
        p :: (List.replicate again p ++ spread (rest ++ [⟨p, closing⟩])) := by
      simp [spread, Vertex.copies, List.replicate_succ, replicate_append_cons]
    have points : once (⟨p, again⟩ :: rest) = p :: once rest := rfl
    have around : p :: once (rest ++ [⟨p, closing⟩]) = p :: once rest ++ [p] := by simp [once]
    have others : ((once rest).zip (rest.map Vertex.again)).all
        (fun e => e.2 == 0 || f (e.1, e.1)) =
          rest.all fun v => v.again == 0 || f (v.point, v.point) := by
      rw [once, List.zip_map', List.all_map]
      rfl
    have first : (again + closing == 0 || f (p, p)) =
        ((again == 0 || f (p, p)) && (closing == 0 || f (p, p))) := by
      cases again <;> cases closing <;> simp
    rw [repeated_cons, zip_rotated, closed, pairs_replicate, List.all_append, all_replicate,
      all_pairs_spread, points, zip_rotated, around, repetitions, List.zip_cons_cons,
      List.all_cons, others, first, List.all_append, List.all_cons, List.all_nil, Bool.and_true]
    dsimp only
    ac_rfl

end Tangible.Polygon
