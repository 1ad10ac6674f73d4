import Tangible.Bundle.Processor
import Tangible.Geometry.Polygon

/-!
# Containment

Which convex hull of a bundle holds a point, and the processor that adds the answer for every
pointer: one container association for each hull that holds pointers, in ascending order of the
hulls' sessions, and the list of all sessions that take part, before the closing alive list.

A hull never holds its own session, and a hull that is not convex holds nothing.
-/

namespace Tangible

namespace Outline

/-- Whether the point lies in the polygon. A polygon that is not convex holds no point. -/
def holds (o : Outline) (p : Point2) : Bool :=
  match Polygon.contains? o.points p with
  | .ok inside => inside
  | .error _ => false

end Outline

namespace Bundle

def hulls (b : Bundle) : List Outline :=
  b.messages.filterMap fun | .convexHull hull => some hull | _ => none

def pointers (b : Bundle) : List Pointer :=
  b.messages.filterMap fun | .pointer pointer => some pointer | _ => none

/-- The first hull of another session that holds the point, as the container of the session. -/
def container? (b : Bundle) (p : Point2) (session : UInt32) : Option Container :=
  (b.hulls.find? fun hull => hull.sessionId ≠ session && hull.holds p).map fun hull =>
    ⟨hull.sessionId, 0, [session]⟩

end Bundle

namespace Containment

/-- Adds contained sessions to the container with the given id, in ascending order of the ids. -/
def hold (id : UInt32) (contained : List UInt32) :
    List (UInt32 × List UInt32) → List (UInt32 × List UInt32)
  | [] => [(id, contained)]
  | (other, held) :: rest =>
    if id < other then (id, contained) :: (other, held) :: rest
    else if id = other then (other, held ++ contained) :: rest
    else (other, held) :: hold id contained rest

/-- The hulls that hold pointers, each with the sessions of its pointers. -/
def containers (b : Bundle) : List (UInt32 × List UInt32) :=
  (b.pointers.filterMap fun p => b.container? p.position p.identity.sessionId).foldl
    (fun found c => hold c.sessionId c.contained found) []

def insertId (id : UInt32) : List UInt32 → List UInt32
  | [] => [id]
  | other :: rest =>
    if id < other then id :: other :: rest
    else if id = other then other :: rest
    else other :: insertId id rest

/-- All ids, ascending and each once. -/
def distinct (ids : List UInt32) : List UInt32 :=
  ids.foldr insertId []

def associated (found : List (UInt32 × List UInt32)) : List UInt32 :=
  distinct (found.flatMap fun (id, held) => id :: held)

/-- The messages that are added: nothing where no hull holds a pointer. -/
def block (found : List (UInt32 × List UInt32)) : List Message :=
  if found.isEmpty then []
  else
    found.map (fun (id, held) => .container ⟨id, 0, held⟩) ++
      [.aliveAssociation (associated found)]

/-- The bundle with messages inserted before its closing alive list, or at its end. -/
def insertBlock (b : Bundle) (added : List Message) : Bundle :=
  match b.alive? with
  | some _ => ⟨b.messages.dropLast ++ added ++ b.messages.getLast?.toList⟩
  | none => ⟨b.messages ++ added⟩

def processor : Processor := fun input _ =>
  .ok (insertBlock input (block (containers input)))

end Containment

end Tangible
