import Tangible.Message.Basic

/-!
# Transforms

Moves, scalings and rotations of messages. `Message.transform?` applies a transform to a message
that supports it. A scaling about a center also scales the sizes along the axis; a rotation in the
plane also turns the angle or the axis of a component.
-/

namespace Tangible

inductive Transform where
  | moveX (d : Single)
  | moveY (d : Single)
  | moveZ (d : Single)
  | move (dx dy : Single)
  | scaleX (factor center : Single)
  | scaleY (factor center : Single)
  | scaleZ (factor center : Single)
  | scale (factor centerX centerY : Single)
  /-- In the plane, about a point of it. -/
  | rotate (angle centerX centerY : Single)
  /-- About a line along the x axis. -/
  | pitch (angle : Single) (center : Point3)
  /-- About a line along the y axis. -/
  | roll (angle : Single) (center : Point3)

/-! ## Points -/

def Point2.shift (p : Point2) (dx dy : Single) : Point2 :=
  ⟨p.x + dx, p.y + dy⟩

def Point2.stretch (p : Point2) (factorX centerX factorY centerY : Single) : Point2 :=
  ⟨scaleAbout p.x factorX centerX, scaleAbout p.y factorY centerY⟩

def Point2.rotate (p : Point2) (angle centerX centerY : Single) : Point2 :=
  let (x, y) := rotateAbout p.x p.y angle centerX centerY
  ⟨x, y⟩

def Point3.rotate (p : Point3) (angle centerX centerY : Single) : Point3 :=
  let (x, y) := rotateAbout p.x p.y angle centerX centerY
  { p with x, y }

def Point3.pitch (p : Point3) (angle : Single) (center : Point3) : Point3 :=
  let (y, z) := rotateAbout p.y p.z angle center.y center.z
  { p with y, z }

def Point3.roll (p : Point3) (angle : Single) (center : Point3) : Point3 :=
  let (x, z) := rotateAbout p.x p.z angle center.x center.z
  { p with x, z }

namespace Transform

/-- What a transform of the plane does to a vertex. Both coordinates are computed anew, also where
the transform leaves one alone, so a negative zero does not last. -/
def vertex? : Transform → Option (Point2 → Point2)
  | .moveX d => some (·.shift d 0)
  | .moveY d => some (·.shift 0 d)
  | .move dx dy => some fun p => (p.shift dx 0).shift 0 dy
  | .scaleX factor center => some (·.stretch factor center 1 0)
  | .scaleY factor center => some (·.stretch 1 0 factor center)
  | .scale factor cx cy => some fun p => (p.stretch factor cx 1 0).stretch 1 0 factor cy
  | .rotate angle cx cy => some (·.rotate angle cx cy)
  | .moveZ _ | .scaleZ .. | .pitch .. | .roll .. => none

/-- What a transform of the plane does to the position of a component. The coordinates that it does
not name stay as they are. -/
def planar? : Transform → Option (Point2 → Point2)
  | .moveX d => some fun p => { p with x := p.x + d }
  | .moveY d => some fun p => { p with y := p.y + d }
  | .move dx dy => some fun p => ⟨p.x + dx, p.y + dy⟩
  | .scaleX factor center => some fun p => { p with x := scaleAbout p.x factor center }
  | .scaleY factor center => some fun p => { p with y := scaleAbout p.y factor center }
  | .scale factor cx cy => some fun p => ⟨scaleAbout p.x factor cx, scaleAbout p.y factor cy⟩
  | .rotate angle cx cy => some (·.rotate angle cx cy)
  | .moveZ _ | .scaleZ .. | .pitch .. | .roll .. => none

/-- What a transform does to a point of space. -/
def spatial : Transform → Point3 → Point3
  | .moveX d, p => { p with x := p.x + d }
  | .moveY d, p => { p with y := p.y + d }
  | .moveZ d, p => { p with z := p.z + d }
  | .move dx dy, p => { p with x := p.x + dx, y := p.y + dy }
  | .scaleX factor center, p => { p with x := scaleAbout p.x factor center }
  | .scaleY factor center, p => { p with y := scaleAbout p.y factor center }
  | .scaleZ factor center, p => { p with z := scaleAbout p.z factor center }
  | .scale factor cx cy, p =>
    { p with x := scaleAbout p.x factor cx, y := scaleAbout p.y factor cy }
  | .rotate angle cx cy, p => p.rotate angle cx cy
  | .pitch angle center, p => p.pitch angle center
  | .roll angle center, p => p.roll angle center

/-- What a transform does to a direction: a rotation turns it, all else leaves it alone. -/
def direction : Transform → Point3 → Point3
  | .rotate angle _ _, p => p.rotate angle 0 0
  | .pitch angle _, p => p.pitch angle .origin
  | .roll angle _, p => p.roll angle .origin
  | _, p => p

/-- What a transform does to the angle of a component of the surface. -/
def turn : Transform → Single → Single
  | .rotate angle _ _, a => Angle.wrap (a + angle)
  | _, a => a

/-- The factor on lengths along the x axis. -/
def alongX : Transform → Single → Single
  | .scaleX factor _, l | .scale factor _ _, l => l * factor
  | _, l => l

def alongY : Transform → Single → Single
  | .scaleY factor _, l | .scale factor _ _, l => l * factor
  | _, l => l

def alongZ : Transform → Single → Single
  | .scaleZ factor _, l => l * factor
  | _, l => l

/-- An area or a volume takes the factor of every axis that is scaled. -/
def onContent (t : Transform) (v : Single) : Single :=
  t.alongZ (t.alongY (t.alongX v))

/-- A radius follows a scaling of both axes only. -/
def onRadius : Transform → Single → Single
  | .scale factor _ _, r => r * factor
  | _, r => r

end Transform

/-! ## Messages -/

def Pointer.transform? (p : Pointer) (t : Transform) : Option Pointer :=
  t.planar?.map fun f =>
    { p with position := f p.position, angle := t.turn p.angle, radius := t.onRadius p.radius }

def Token.transform? (k : Token) (t : Transform) : Option Token :=
  t.planar?.map fun f => { k with position := f k.position, angle := t.turn k.angle }

def Bounds.transform? (b : Bounds) (t : Transform) : Option Bounds :=
  t.planar?.map fun f =>
    { b with
      position := f b.position
      angle := t.turn b.angle
      width := t.alongX b.width
      height := t.alongY b.height
      area := t.onContent b.area }

def Pointer3.transform (p : Pointer3) (t : Transform) : Pointer3 :=
  { p with position := t.spatial p.position, axis := t.direction p.axis }

def Token3.transform (k : Token3) (t : Transform) : Token3 :=
  { k with position := t.spatial k.position, axis := t.direction k.axis }

def Bounds3.transform (b : Bounds3) (t : Transform) : Bounds3 :=
  { b with
    position := t.spatial b.position
    axis := t.direction b.axis
    width := t.alongX b.width
    height := t.alongY b.height
    depth := t.alongZ b.depth
    volume := t.onContent b.volume }

def Outline.transform? (o : Outline) (t : Transform) : Option Outline :=
  t.vertex?.map fun f => { o with points := o.points.map f }

def InnerContours.transform? (i : InnerContours) (t : Transform) : Option InnerContours :=
  t.vertex?.map fun f => { i with contours := i.contours.map (·.map f) }

def Skeleton.transform2? (s : Skeleton Point2) (t : Transform) : Option (Skeleton Point2) :=
  t.vertex?.map s.mapJoints

def Skeleton.transform3 (s : Skeleton Point3) (t : Transform) : Skeleton Point3 :=
  s.mapJoints t.spatial

/-- A span has no other direction than that of the x axis, so an area cannot be turned. -/
def Area.transform? (a : Area) (t : Transform) : Option Area :=
  match t with
  | .rotate .. => none
  | _ => t.planar?.map fun f =>
    { a with
      spans := a.spans.map fun span =>
        let p := f ⟨span.x, span.y⟩
        ⟨p.x, p.y, t.alongX span.width⟩ }

/-- The transformed message, if its kind supports the transform. -/
def Message.transform? (m : Message) (t : Transform) : Option Message :=
  match m with
  | .pointer m => (m.transform? t).map .pointer
  | .token m => (m.transform? t).map .token
  | .bounds m => (m.transform? t).map .bounds
  | .pointer3 m => some (.pointer3 (m.transform t))
  | .token3 m => some (.token3 (m.transform t))
  | .bounds3 m => some (.bounds3 (m.transform t))
  | .convexHull m => (m.transform? t).map .convexHull
  | .outerContour m => (m.transform? t).map .outerContour
  | .innerContour m => (m.transform? t).map .innerContour
  | .skeleton2 m => (m.transform2? t).map .skeleton2
  | .skeleton3 m => some (.skeleton3 (m.transform3 t))
  | .area m => (m.transform? t).map .area
  | _ => none

end Tangible
