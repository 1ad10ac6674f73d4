import Tangible.Osc.Arg
import Tangible.Geometry.Point
import Tangible.Text.Quoted

/-!
# Runs of arguments

Lists of identifiers, numbers, points and spans as runs of arguments. Each reader accepts exactly
what the writer beside it writes.
-/

namespace Tangible

open Osc (Arg)

/-- A horizontal stretch of covered samples. -/
structure Span where
  x : Single
  y : Single
  width : Single
deriving BEq, DecidableEq

namespace Run

def ofIds (ids : List UInt32) : List Arg :=
  ids.map .ofId

def ids? : List Arg → Option (List UInt32)
  | [] => some []
  | .int v :: rest => (ids? rest).map (v.toUInt32 :: ·)
  | _ => none

def ofFloats (xs : List Single) : List Arg :=
  xs.map .float

def floats? : List Arg → Option (List Single)
  | [] => some []
  | .float x :: rest => (floats? rest).map (x :: ·)
  | _ => none

def ofPoint2 (p : Point2) : List Arg :=
  [.float p.x, .float p.y]

def ofPoint3 (p : Point3) : List Arg :=
  [.float p.x, .float p.y, .float p.z]

def ofPoints (points : List Point2) : List Arg :=
  points.flatMap ofPoint2

def points? : List Arg → Option (List Point2)
  | [] => some []
  | .float x :: .float y :: rest => (points? rest).map (⟨x, y⟩ :: ·)
  | _ => none

def ofSpans (spans : List Span) : List Arg :=
  spans.flatMap fun span => [.float span.x, .float span.y, .float span.width]

def spans? : List Arg → Option (List Span)
  | [] => some []
  | .float x :: .float y :: .float width :: rest => (spans? rest).map (⟨x, y, width⟩ :: ·)
  | _ => none

/-- Contours one after the other with a true between them. -/
def ofContours : List (List Point2) → List Arg
  | [] => []
  | [contour] => ofPoints contour
  | contour :: rest => ofPoints contour ++ .bool true :: ofContours rest

/-- The first contour and the contours behind separators. -/
def separated? : List Arg → Option (List Point2 × List (List Point2))
  | [] => some ([], [])
  | .float x :: .float y :: rest =>
    (separated? rest).map fun (contour, others) => (⟨x, y⟩ :: contour, others)
  | .bool true :: rest => (separated? rest).map fun (contour, others) => ([], contour :: others)
  | _ => none

/-- No arguments are no contours, although one empty contour is written without any either. -/
def contours? : List Arg → Option (List (List Point2))
  | [] => some []
  | args => (separated? args).map fun (contour, others) => contour :: others

end Run

/-! ## Texts of runs -/

def idsText (ids : List UInt32) : String :=
  Text.bracketed (ids.map toString)

def floatsText (xs : List Single) : String :=
  Text.bracketed (xs.map Decimal.exact)

def pointsText (points : List Point2) : String :=
  "[" ++ String.intercalate " " (points.map Point2.text) ++ "]"

end Tangible
