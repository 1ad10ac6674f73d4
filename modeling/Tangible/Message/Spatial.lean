import Tangible.Message.Identity
import Tangible.Message.Motion

/-!
# Components in space

Pointers, tokens and bounds above the surface. A pointer points along its axis; tokens and bounds
are turned by their angle about it.
-/

namespace Tangible

open Osc (Arg)

/-! ## Pointers -/

structure Pointer3 where
  identity : Identity := {}
  position : Point3 := .origin
  axis : Point3 := .origin
  radius : Single := 0
  motion : Option Motion3 := none
deriving BEq, DecidableEq

namespace Pointer3

def args (p : Pointer3) : List Arg :=
  p.identity.args ++ Run.ofPoint3 p.position ++ Run.ofPoint3 p.axis ++ [.float p.radius] ++
    Motion3.tail p.motion

def ofArgs? : List Arg → Option Pointer3
  | .int session :: .int typeUser :: .int component :: .float x :: .float y :: .float z ::
      .float ax :: .float ay :: .float az :: .float radius :: rest =>
    (Motion3.ofTail? rest).map fun motion =>
      { identity := .ofWords session.toUInt32 typeUser.toUInt32 component.toUInt32
        position := ⟨x, y, z⟩, axis := ⟨ax, ay, az⟩, radius, motion }
  | _ => none

def text (p : Pointer3) : String :=
  p.identity.text ++ " pos=" ++ p.position.text ++ " axis=" ++ p.axis.text ++
    " radius=" ++ Decimal.plain p.radius

end Pointer3

/-! ## Tokens -/

structure Token3 where
  identity : Identity := {}
  position : Point3 := .origin
  angle : Single := 0
  axis : Point3 := .origin
  motion : Option Motion3 := none
deriving BEq, DecidableEq

namespace Token3

def args (t : Token3) : List Arg :=
  t.identity.args ++ Run.ofPoint3 t.position ++ .float t.angle :: Run.ofPoint3 t.axis ++
    Motion3.tail t.motion

def ofArgs? : List Arg → Option Token3
  | .int session :: .int typeUser :: .int component :: .float x :: .float y :: .float z ::
      .float angle :: .float ax :: .float ay :: .float az :: rest =>
    (Motion3.ofTail? rest).map fun motion =>
      { identity := .ofWords session.toUInt32 typeUser.toUInt32 component.toUInt32
        position := ⟨x, y, z⟩, angle, axis := ⟨ax, ay, az⟩, motion }
  | _ => none

def text (t : Token3) : String :=
  t.identity.text ++ " pos=" ++ t.position.text ++ " angle=" ++ Decimal.plain t.angle ++
    " axis=" ++ t.axis.text

end Token3

/-! ## Bounds -/

structure Bounds3 where
  sessionId : UInt32 := 0
  position : Point3 := .origin
  angle : Single := 0
  axis : Point3 := .origin
  width : Single := 0
  height : Single := 0
  depth : Single := 0
  volume : Single := 0
  motion : Option Motion3 := none
deriving BEq, DecidableEq

namespace Bounds3

def args (b : Bounds3) : List Arg :=
  .ofId b.sessionId ::
    (Run.ofPoint3 b.position ++ .float b.angle :: Run.ofPoint3 b.axis ++
      Run.ofFloats [b.width, b.height, b.depth, b.volume] ++ Motion3.tail b.motion)

def ofArgs? : List Arg → Option Bounds3
  | .int session :: .float x :: .float y :: .float z :: .float angle :: .float ax :: .float ay ::
      .float az :: .float width :: .float height :: .float depth :: .float volume :: rest =>
    (Motion3.ofTail? rest).map fun motion =>
      { sessionId := session.toUInt32, position := ⟨x, y, z⟩, angle, axis := ⟨ax, ay, az⟩
        width, height, depth, volume, motion }
  | _ => none

def text (b : Bounds3) : String :=
  s!"s_id={b.sessionId}" ++ " pos=" ++ b.position.text ++ " angle=" ++ Decimal.plain b.angle ++
    " axis=" ++ b.axis.text ++ " size=" ++ Decimal.plain b.width ++ "x" ++
    Decimal.plain b.height ++ "x" ++ Decimal.plain b.depth ++
    " volume=" ++ Decimal.plain b.volume

end Bounds3

end Tangible
