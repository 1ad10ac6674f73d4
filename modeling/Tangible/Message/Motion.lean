import Tangible.Message.Run

/-!
# Motion of a component

The velocities and accelerations that may follow the other arguments of a component. They come all
or not at all.
-/

namespace Tangible

open Osc (Arg)

/-- Motion in the plane. Pointers use the angular entries for their pressure. -/
structure Motion2 where
  velocityX : Single
  velocityY : Single
  angularVelocity : Single
  acceleration : Single
  angularAcceleration : Single
deriving BEq, DecidableEq

/-- Motion in space. -/
structure Motion3 where
  velocityX : Single
  velocityY : Single
  velocityZ : Single
  angularVelocity : Single
  acceleration : Single
  angularAcceleration : Single
deriving BEq, DecidableEq

def Motion2.toFloats (m : Motion2) : List Single :=
  [m.velocityX, m.velocityY, m.angularVelocity, m.acceleration, m.angularAcceleration]

def Motion3.toFloats (m : Motion3) : List Single :=
  [m.velocityX, m.velocityY, m.velocityZ, m.angularVelocity, m.acceleration,
    m.angularAcceleration]

def Motion2.tail : Option Motion2 → List Arg
  | none => []
  | some m => Run.ofFloats m.toFloats

def Motion3.tail : Option Motion3 → List Arg
  | none => []
  | some m => Run.ofFloats m.toFloats

def Motion2.ofTail? : List Arg → Option (Option Motion2)
  | [] => some none
  | [.float vx, .float vy, .float va, .float a, .float ra] => some (some ⟨vx, vy, va, a, ra⟩)
  | _ => none

def Motion3.ofTail? : List Arg → Option (Option Motion3)
  | [] => some none
  | [.float vx, .float vy, .float vz, .float va, .float a, .float ra] =>
    some (some ⟨vx, vy, vz, va, a, ra⟩)
  | _ => none

end Tangible
