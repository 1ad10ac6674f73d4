import Tangible.Bundle.Stack
import Tangible.Network.Listener

/-!
# Chains

A chain holds the adaptors and recorders behind a source, with the store of the bundles that they
share. When a source tells a listener, an adaptor replaces its stack by what it makes of the
source's stack, and tells its own listeners unless it made nothing.

Nothing keeps an adaptor from listening to itself, be it through others. It is borrowed while it is
being told, so the program stops where such an adaptor is told again. A notification keeps the chain
as it is then.
-/

namespace Tangible

structure Chain where
  store : Store := {}
  adaptors : List Adaptor := []
  recorders : List Recorder := []

/-- An adaptor was told while it was being told. -/
structure Reentry where
  place : Nat
deriving DecidableEq, Repr

namespace Chain

def bundles (c : Chain) (stack : List Cell) : List Bundle :=
  stack.map c.store.read

def modifyAdaptor (c : Chain) (place : Nat) (f : Adaptor → Adaptor) : Chain :=
  { c with adaptors := c.adaptors.modify place f }

def modifyRecorder (c : Chain) (place : Nat) (f : Recorder → Recorder) : Chain :=
  { c with recorders := c.recorders.modify place f }

/-- Tells listeners one after the other. Each sees the changes that those before it made, and one
that stops the program stops it for those behind it. -/
def tellEach (tell : Listener → Chain → Except Reentry Unit × Chain) :
    List Listener → Chain → Except Reentry Unit × Chain
  | [], c => (.ok (), c)
  | l :: ls, c =>
    match tell l c with
    | (.ok (), c) => tellEach tell ls c
    | (.error e, c) => (.error e, c)

/-- Shows a stack to a listener, and what the listener makes of it to those behind it. The adaptors
in `busy` are being told, and `depth` bounds the number of those that can be told in a row. -/
def notifyWithin : (depth : Nat) → (busy : List Nat) → List Cell → Listener → Chain →
    Except Reentry Unit × Chain
  | _, _, stack, .recorder place, c =>
    (.ok (), c.modifyRecorder place (·.record (c.bundles stack)))
  | 0, _, _, .adaptor place, c => (.error ⟨place⟩, c)
  | depth + 1, busy, stack, .adaptor place, c =>
    if place ∈ busy then (.error ⟨place⟩, c)
    else
      match c.adaptors[place]? with
      | none => (.ok (), c)
      | some adaptor =>
        let (made, store) := adaptor.transform c.store stack
        let c := { c with store }.modifyAdaptor place ({ · with stack := made })
        if made.isEmpty then (.ok (), c)
        else tellEach (notifyWithin depth (place :: busy) made) adaptor.listeners.members c

/-- More than there are adaptors, so a row of different ones is never as long. -/
def depth (c : Chain) : Nat := c.adaptors.length + 1

def notify (c : Chain) (stack : List Cell) (l : Listener) : Except Reentry Unit × Chain :=
  notifyWithin c.depth [] stack l c

def notifyAll (c : Chain) (stack : List Cell) (ls : Listeners) : Except Reentry Unit × Chain :=
  tellEach (notifyWithin c.depth [] stack) ls.members c

/-- Lets a listener listen to an adaptor. -/
def attach (c : Chain) (place : Nat) (l : Listener) : Chain :=
  c.modifyAdaptor place fun a => { a with listeners := a.listeners.add l }

def detach (c : Chain) (place : Nat) (l : Listener) : Chain :=
  c.modifyAdaptor place fun a => { a with listeners := a.listeners.remove l }

/-- The bundle at a place of an adaptor's stack; it is taken with those before it. -/
def takeFrom? (c : Chain) (place index : Nat) : Except Error (Bundle × Chain) :=
  match c.adaptors[place]? with
  | none => .error (.outOfRange index 0)
  | some adaptor =>
    (Stack.take? adaptor.stack index).map fun (cell, rest) =>
      (c.store.read cell, c.modifyAdaptor place ({ · with stack := rest }))

end Chain

end Tangible
