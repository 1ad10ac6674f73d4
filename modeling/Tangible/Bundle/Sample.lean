import Tangible.Bundle.Processor
import Tangible.Message.Transform

/-!
# Samples

Small well-framed bundles at a fixed time: pointers in a row, and a hull with one pointer. Small
processors: one that moves what can be moved, some that spoil the framing, some that fail.
-/

namespace Tangible.Sample

def time : Timetag := ⟨3900000000, 0⟩

def frame (id : UInt32) : Frame := { id, time }

def pointer (session : UInt32) (position : Point2) : Pointer :=
  { identity := { sessionId := session }, position }

/-- A quadrilateral that is wider at its top. -/
def hull (session : UInt32) : Outline :=
  ⟨session, [⟨-1, 4⟩, ⟨-1, 0⟩, ⟨3, 0⟩, ⟨5, 4⟩]⟩

/-- One pointer for each session, a tenth apart from left to right. -/
def pointers (frameId : UInt32) (sessions : List UInt32) : Bundle :=
  let placed := sessions.zipIdx.map fun (session, i) =>
    Message.pointer (pointer session ⟨0.1 * Single.ofNat i, 0.5⟩)
  ⟨.frame (frame frameId) :: placed ++ [.alive sessions]⟩

/-- A hull and a pointer of the session behind it. -/
def hullAndPointer (frameId session : UInt32) (position : Point2) : Bundle :=
  ⟨[.frame (frame frameId), .convexHull (hull session), .pointer (pointer (session + 1) position),
    .alive [session, session + 1]]⟩

/-! ## Processors -/

def shift (dx : Single) : Processor := fun input _ =>
  .ok ⟨input.messages.map fun m => (m.transform? (.moveX dx)).getD m⟩

/-- Leaves the output as it was. -/
def idle : Processor := fun _ output => .ok output

def dropFirst : Processor := fun input _ =>
  match input.remove? 0 with
  | .ok (_, b) => .ok b
  | .error e => .fail input e

def extraAlive : Processor := fun input _ => .ok (input.push (.alive []))

def refuse : Processor := fun _ output => .fail output (.geometry "refused")

/-- Copies the bundles whose frames have even ids, and those without a frame. -/
def refuseOdd : Processor := fun input output =>
  match input.frame? with
  | some frame => if frame.id % 2 = 1 then .fail output (.malformed "odd") else .ok input
  | none => .ok input

end Tangible.Sample
