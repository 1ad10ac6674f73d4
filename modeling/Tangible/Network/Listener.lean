import Tangible.Bundle.Store
import Tangible.Text.Term

/-!
# Listeners

A source of bundles tells its listeners whenever it has gathered some. A listener is a recorder,
which keeps copies of what it is shown, or an adaptor, which transforms the bundles and is a source
itself. Both are named by their places in the chain they belong to.
-/

namespace Tangible

inductive Listener where
  | recorder (place : Nat)
  | adaptor (place : Nat)
deriving DecidableEq, Repr

/-- The listeners of a source in the order in which they are told, each once. -/
structure Listeners where
  members : List Listener := []
deriving DecidableEq, Repr

namespace Listeners

def size (ls : Listeners) : Nat := ls.members.length

def contains (ls : Listeners) (l : Listener) : Bool :=
  ls.members.contains l

/-- Adds a listener at the end unless it is there already. -/
def add (ls : Listeners) (l : Listener) : Listeners :=
  if ls.contains l then ls else ⟨ls.members ++ [l]⟩

def remove (ls : Listeners) (l : Listener) : Listeners :=
  ⟨ls.members.filter (· ≠ l)⟩

def term (ls : Listeners) : String :=
  Text.record "ListenerSet" [("len", toString ls.size)]

end Listeners

structure Recorder where
  notifications : Nat := 0
  frameIds : List UInt32 := []
  /-- Copies of the bundles, which later changes do not reach. -/
  bundles : List Bundle := []

def Recorder.record (r : Recorder) (shown : List Bundle) : Recorder :=
  { notifications := r.notifications + 1
    frameIds := r.frameIds ++ shown.filterMap fun b => b.frame?.map Frame.id
    bundles := r.bundles ++ shown }

/-- A processor with the bundles it made of the last stack it was shown. An adaptor in place writes
every output into the bundle of its input. -/
structure Adaptor where
  processor : Processor
  inPlace : Bool := false
  stack : List Cell := []
  listeners : Listeners := {}

/-- Runs the processor over the cells of a stack. The bundles it fails on are left out. -/
def Adaptor.transform (a : Adaptor) (s : Store) : List Cell → List Cell × Store
  | [] => ([], s)
  | input :: rest =>
    let (output, s) := if a.inPlace then (input, s) else s.add {}
    let (result, s) := s.process a.processor input output
    let (made, s) := a.transform s rest
    match result with
    | .ok () => (output :: made, s)
    | .error _ => (made, s)

end Tangible
