import Tangible.Bundle.Basic

/-!
# Assembly of bundles

A receiver sees one stream of messages. A frame opens a bundle and an alive list closes it.
Messages outside a bundle are dropped, and so is a bundle that another frame interrupts.

A closed bundle is accepted if its frame is newer than the last accepted one. Frame ids are serial
numbers: an id is newer than another if it lies less than half the range of numbers ahead, so the
order survives the wrap. A frame with id zero is out of order. It is always accepted and leaves the
last id as it was.
-/

namespace Tangible

structure Assembly where
  /-- The messages since the last frame, while no alive list has closed them. -/
  opened : Option Bundle := none
  /-- The id of the newest accepted frame, zero before the first one. -/
  lastFrameId : UInt32 := 0

namespace Assembly

def isNewer (id last : UInt32) : Bool :=
  last = 0 || (id ≠ last && id - last < 0x80000000)

def close (a : Assembly) (b : Bundle) : Option Bundle × Assembly :=
  match b.frame? with
  | none => (none, { a with opened := none })
  | some frame =>
    if frame.id = 0 then (some b, { a with opened := none })
    else if isNewer frame.id a.lastFrameId then (some b, ⟨none, frame.id⟩)
    else (none, { a with opened := none })

/-- Takes in one message and returns the bundle that it completes. -/
def feed (a : Assembly) (m : Message) : Option Bundle × Assembly :=
  if m.isFrame then (none, { a with opened := some ⟨[m]⟩ })
  else
    match a.opened with
    | none => (none, a)
    | some b =>
      if m.isAlive then a.close (b.push m) else (none, { a with opened := some (b.push m) })

/-- Takes in messages one after the other and returns the accepted bundles in order. -/
def feedAll (a : Assembly) : List Message → List Bundle × Assembly
  | [] => ([], a)
  | m :: rest =>
    let (completed, a) := a.feed m
    let (bundles, a) := a.feedAll rest
    (completed.toList ++ bundles, a)

@[simp] theorem feedAll_nil (a : Assembly) : a.feedAll [] = ([], a) := rfl

theorem feedAll_cons (a : Assembly) (m : Message) (rest : List Message) :
    a.feedAll (m :: rest) =
      ((a.feed m).1.toList ++ ((a.feed m).2.feedAll rest).1, ((a.feed m).2.feedAll rest).2) :=
  rfl

/-- Where a stream is cut does not matter. -/
theorem feedAll_append (a : Assembly) (ms rest : List Message) :
    a.feedAll (ms ++ rest) =
      ((a.feedAll ms).1 ++ ((a.feedAll ms).2.feedAll rest).1,
        ((a.feedAll ms).2.feedAll rest).2) := by
  induction ms generalizing a with
  | nil => simp
  | cons m ms ih => simp [feedAll_cons, ih]

end Assembly

end Tangible
