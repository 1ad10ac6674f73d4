/-!
# Sessions and frames

A session id names a contact across bundles. Several messages may share one, so the registry
counts how often each id is registered; an id whose count falls to zero is gone. A frame counter
gives the ids of successive frames.

The id zero is reserved in both: it is no session, and a frame that carries it is out of order.
-/

namespace Tangible

/-- The registered ids with their counts, in ascending order of the ids. -/
structure Sessions where
  entries : List (UInt32 × Nat) := []
deriving DecidableEq, Repr

namespace Sessions

def count (s : Sessions) (id : UInt32) : Nat :=
  (s.entries.lookup id).getD 0

def isRegistered (s : Sessions) (id : UInt32) : Bool :=
  (s.entries.lookup id).isSome

/-- The registered ids in ascending order. -/
def ids (s : Sessions) : List UInt32 :=
  s.entries.map (·.1)

def increment (id : UInt32) : List (UInt32 × Nat) → List (UInt32 × Nat)
  | [] => [(id, 1)]
  | (other, n) :: rest =>
    if id < other then (id, 1) :: (other, n) :: rest
    else if id = other then (id, n + 1) :: rest
    else (other, n) :: increment id rest

/-- An entry leaves with its last registration. -/
def decrement (id : UInt32) : List (UInt32 × Nat) → List (UInt32 × Nat)
  | [] => []
  | (other, n) :: rest =>
    if id = other then if n ≤ 1 then rest else (other, n - 1) :: rest
    else (other, n) :: decrement id rest

def register (s : Sessions) (id : UInt32) : Sessions :=
  ⟨increment id s.entries⟩

def unregister (s : Sessions) (id : UInt32) : Sessions :=
  ⟨decrement id s.entries⟩

/-- The first number from `candidate` on that an ascending list leaves out. -/
def firstGap (candidate : UInt32) : List UInt32 → UInt32
  | [] => candidate
  | id :: rest => if id = candidate then firstGap (candidate + 1) rest else candidate

/-- The greatest registered id plus one, or the smallest unregistered id once the greatest id is
taken. -/
def nextId (s : Sessions) : UInt32 :=
  match s.ids.getLast? with
  | none => 1
  | some greatest =>
    if greatest = 0xffffffff then firstGap 1 (s.ids.filter (· ≠ 0)) else greatest + 1

def clear (_ : Sessions) : Sessions := {}

end Sessions

/-- The id of the last frame, zero before the first one. -/
structure FrameCounter where
  current : UInt32 := 0
deriving DecidableEq, Repr

namespace FrameCounter

/-- The id behind the current one. The counter wraps to one. -/
def next (c : FrameCounter) : UInt32 :=
  if c.current + 1 = 0 then 1 else c.current + 1

def advance (c : FrameCounter) : FrameCounter := ⟨c.next⟩

end FrameCounter

end Tangible
