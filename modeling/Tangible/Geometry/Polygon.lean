import Tangible.Geometry.Point

/-!
# Convex polygons

A polygon is the list of its vertices in order. `orientation?` walks once around it and accepts a
convex polygon that winds once; `contains?` tests whether a point lies in a convex polygon, its
boundary included.

At every vertex the walk looks at the turn from the edge before to the edge behind it. All turns
must have one sign. A vertex without a turn is passed over unless the boundary folds back there.
-/

namespace Tangible.Polygon

inductive Orientation where
  | counterclockwise
  | clockwise
deriving DecidableEq, Repr

def Orientation.sign : Orientation → Single
  | .counterclockwise => 1
  | .clockwise => -1

/-- Why a list of vertices is not a convex polygon. -/
inductive Defect where
  | tooFewPoints (count : Nat)
  | foldsBack (vertex : Nat)
  | notConvex (vertex : Nat)
  | degenerate
  | winds (turns : Single)
deriving DecidableEq

def Defect.text : Defect → String
  | .tooFewPoints count => s!"polygon needs at least 3 points, got {count}"
  | .foldsBack vertex => s!"polygon folds back at vertex {vertex}"
  | .notConvex vertex => s!"polygon is not convex at vertex {vertex}"
  | .degenerate => "polygon is degenerate"
  | .winds turns => "polygon winds " ++ Decimal.oneDecimal turns ++ " times"

/-- Twice the signed area of the triangle of three points. -/
def cross (o a b : Point2) : Single :=
  (a.x - o.x) * (b.y - o.y) - (a.y - o.y) * (b.x - o.x)

/-- The inner product of the edges that meet at `b`. -/
def along (a b c : Point2) : Single :=
  (b.x - a.x) * (c.x - b.x) + (b.y - a.y) * (c.y - b.y)

/-- Three vertices in a row and the index of the middle one. -/
structure Corner where
  before : Point2
  vertex : Point2
  behind : Point2
  index : Nat

/-- The list with its first item moved to the end. -/
def rotated {α : Type} : List α → List α
  | [] => []
  | a :: rest => rest ++ [a]

/-- The corners of the polygon, beginning with the one at the second vertex. -/
def corners (points : List Point2) : List Corner :=
  let second := rotated points
  let third := rotated second
  (points.zip (second.zip (third.zip (rotated (List.range points.length))))).map
    fun (a, b, c, i) => ⟨a, b, c, i⟩

/-- What a walk has seen so far: the sign of its turns and the angle that they add up to. -/
structure Walk where
  orientation : Option Orientation
  winding : Single

def turnOf (turn : Single) : Option Orientation :=
  if turn > 0 then some .counterclockwise
  else if turn < 0 then some .clockwise
  else none

def Walk.step (w : Walk) (corner : Corner) : Except Defect Walk :=
  let turn := cross corner.before corner.vertex corner.behind
  let inner := along corner.before corner.vertex corner.behind
  let winding := w.winding + Angle.ofDirection turn inner
  match turnOf turn with
  | none => if inner < 0 then .error (.foldsBack corner.index) else .ok ⟨w.orientation, winding⟩
  | some orientation =>
    match w.orientation with
    | none => .ok ⟨some orientation, winding⟩
    | some seen =>
      if orientation = seen then .ok ⟨some seen, winding⟩ else .error (.notConvex corner.index)

/-- How far the winding may be from one turn. -/
def tolerance : Single := 0.1

/-- The orientation of a convex polygon. The outer angles of a polygon that does not cross itself
add up to one turn. -/
def orientation? (points : List Point2) : Except Defect Orientation :=
  if points.length < 3 then .error (.tooFewPoints points.length)
  else do
    let w ← (corners points).foldlM Walk.step ⟨none, 0⟩
    match w.orientation with
    | none => throw .degenerate
    | some orientation =>
      if (w.winding.abs - Angle.turn).abs > tolerance then throw (.winds (w.winding.abs / Angle.turn))
      else return orientation

/-- Whether the point lies inside the polygon or on its boundary: on the outer side of no edge. -/
def contains? (points : List Point2) (p : Point2) : Except Defect Bool := do
  let orientation ← orientation? points
  return (points.zip (rotated points)).all fun (a, b) => cross a b p * orientation.sign ≥ 0

end Tangible.Polygon
