import Tangible.Message.Identity
import Tangible.Message.Motion

/-!
# Components of the surface

Pointers, tokens, bounds and symbols. Each has its arguments in wire order, the reader of these
arguments, and the text that follows its address.
-/

namespace Tangible

open Osc (Arg)

/-! ## Pointers -/

structure Pointer where
  identity : Identity := {}
  position : Point2 := .origin
  angle : Single := 0
  shear : Single := 0
  radius : Single := 0
  pressure : Single := 0
  motion : Option Motion2 := none
deriving BEq, DecidableEq

namespace Pointer

def args (p : Pointer) : List Arg :=
  p.identity.args ++
    Run.ofFloats [p.position.x, p.position.y, p.angle, p.shear, p.radius, p.pressure] ++
    Motion2.tail p.motion

def ofArgs? : List Arg → Option Pointer
  | .int session :: .int typeUser :: .int component :: .float x :: .float y :: .float angle ::
      .float shear :: .float radius :: .float pressure :: rest =>
    (Motion2.ofTail? rest).map fun motion =>
      { identity := .ofWords session.toUInt32 typeUser.toUInt32 component.toUInt32
        position := ⟨x, y⟩, angle, shear, radius, pressure, motion }
  | _ => none

def text (p : Pointer) : String :=
  p.identity.text ++ " pos=" ++ p.position.text ++ " angle=" ++ Decimal.plain p.angle ++
    " shear=" ++ Decimal.plain p.shear ++ " radius=" ++ Decimal.plain p.radius ++
    " press=" ++ Decimal.plain p.pressure

end Pointer

/-! ## Tokens -/

structure Token where
  identity : Identity := {}
  position : Point2 := .origin
  angle : Single := 0
  motion : Option Motion2 := none
deriving BEq, DecidableEq

namespace Token

def args (t : Token) : List Arg :=
  t.identity.args ++ Run.ofFloats [t.position.x, t.position.y, t.angle] ++ Motion2.tail t.motion

def ofArgs? : List Arg → Option Token
  | .int session :: .int typeUser :: .int component :: .float x :: .float y :: .float angle ::
      rest =>
    (Motion2.ofTail? rest).map fun motion =>
      { identity := .ofWords session.toUInt32 typeUser.toUInt32 component.toUInt32
        position := ⟨x, y⟩, angle, motion }
  | _ => none

def text (t : Token) : String :=
  t.identity.text ++ " pos=" ++ t.position.text ++ " angle=" ++ Decimal.plain t.angle

end Token

/-! ## Bounds -/

structure Bounds where
  sessionId : UInt32 := 0
  position : Point2 := .origin
  angle : Single := 0
  width : Single := 0
  height : Single := 0
  area : Single := 0
  motion : Option Motion2 := none
deriving BEq, DecidableEq

namespace Bounds

def args (b : Bounds) : List Arg :=
  .ofId b.sessionId ::
    (Run.ofFloats [b.position.x, b.position.y, b.angle, b.width, b.height, b.area] ++
      Motion2.tail b.motion)

def ofArgs? : List Arg → Option Bounds
  | .int session :: .float x :: .float y :: .float angle :: .float width :: .float height ::
      .float area :: rest =>
    (Motion2.ofTail? rest).map fun motion =>
      { sessionId := session.toUInt32, position := ⟨x, y⟩, angle, width, height, area, motion }
  | _ => none

def text (b : Bounds) : String :=
  s!"s_id={b.sessionId}" ++ " pos=" ++ b.position.text ++ " angle=" ++ Decimal.plain b.angle ++
    " size=" ++ Decimal.plain b.width ++ "x" ++ Decimal.plain b.height ++
    " area=" ++ Decimal.plain b.area

end Bounds

/-! ## Symbols -/

structure Symbol where
  identity : Identity := {}
  /-- The family that the symbol belongs to. -/
  group : String := ""
  data : String := ""
deriving BEq, DecidableEq

namespace Symbol

def args (s : Symbol) : List Arg :=
  s.identity.args ++ [.string s.group, .string s.data]

def ofArgs? : List Arg → Option Symbol
  | [.int session, .int typeUser, .int component, .string group, .string data] =>
    some
      { identity := .ofWords session.toUInt32 typeUser.toUInt32 component.toUInt32
        group, data }
  | _ => none

def text (s : Symbol) : String :=
  s.identity.text ++ " group=" ++ s.group ++ " data=" ++ s.data

end Symbol

end Tangible
