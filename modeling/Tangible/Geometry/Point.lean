import Tangible.Decimal.Layout
import Tangible.Geometry.Angle

/-!
# Points

Points of the plane and of space, and the affine maps of single coordinates that every transform
is made of. Each arithmetic step rounds to single precision, so the order of the steps is part of
the definition.
-/

namespace Tangible

structure Point2 where
  x : Single
  y : Single
deriving BEq, DecidableEq

structure Point3 where
  x : Single
  y : Single
  z : Single
deriving BEq, DecidableEq

def Point2.origin : Point2 := ⟨0, 0⟩

def Point3.origin : Point3 := ⟨0, 0, 0⟩

def Point2.text (p : Point2) : String :=
  "(" ++ Decimal.plain p.x ++ ", " ++ Decimal.plain p.y ++ ")"

def Point3.text (p : Point3) : String :=
  "(" ++ Decimal.plain p.x ++ ", " ++ Decimal.plain p.y ++ ", " ++ Decimal.plain p.z ++ ")"

/-- Scales a coordinate about a center. -/
def scaleAbout (value factor center : Single) : Single :=
  center + (value - center) * factor

/-- Turns the point `(x, y)` about the point `(cx, cy)`. -/
def rotateAbout (x y angle cx cy : Single) : Single × Single :=
  let sin := Angle.sin angle
  let cos := Angle.cos angle
  let dx := x - cx
  let dy := y - cy
  (cx + dx * cos - dy * sin, cy + dx * sin + dy * cos)

end Tangible
