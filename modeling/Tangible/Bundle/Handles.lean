import Tangible.Bundle.Stack
import Tangible.Bundle.Store
import Tangible.Message.Term

/-!
# Handles

A table of numbered handles to shared bundles, together with a stack of bundles. A handle is made
for a new bundle or as an alias of another handle, and it can be dropped; its number is not used
again. The handles of a bundle are counted over the table and the stack.
-/

namespace Tangible

structure Handles where
  store : Store := {}
  cells : List (Option Cell) := []
  stack : List Cell := []

namespace Handles

/-- The bundle behind a handle that was not dropped. -/
def cell? (h : Handles) (number : Nat) : Option Cell :=
  (h.cells[number]?).join

def bundle? (h : Handles) (number : Nat) : Option Bundle :=
  (h.cell? number).map h.store.read

/-- Makes a handle to a cell and returns its number. -/
def hold (h : Handles) (cell : Cell) : Nat × Handles :=
  (h.cells.length, { h with cells := h.cells ++ [some cell] })

/-- Makes a handle to a new bundle. -/
def create (h : Handles) (b : Bundle) : Nat × Handles :=
  let (cell, store) := h.store.add b
  { h with store }.hold cell

def drop (h : Handles) (number : Nat) : Handles :=
  { h with cells := h.cells.set number none }

def write (h : Handles) (cell : Cell) (b : Bundle) : Handles :=
  { h with store := h.store.write cell b }

/-- Copies the contents of one bundle into another. Nothing happens where both are the same. -/
def copy (h : Handles) (target source : Cell) : Handles :=
  if target = source then h else h.write target (h.store.read source)

/-! ## The stack -/

/-- Puts bundles on the stack. -/
def pushAll (h : Handles) (cells : List Cell) : Handles :=
  { h with stack := h.stack ++ cells }

/-- Makes a handle to a bundle that has left the stack. -/
def leave (h : Handles) (cell : Cell) (stack : List Cell) : Nat × Handles :=
  { h with stack }.hold cell

/-- The bundle at a place of the stack; those before it leave the stack too. -/
def take? (h : Handles) (place : Nat) : Except Error (Nat × Handles) :=
  (Stack.take? h.stack place).map fun (cell, rest) => h.leave cell rest

/-- The newest bundle of the stack, which is empty afterwards. -/
def latest? (h : Handles) : Option (Nat × Handles) :=
  (Stack.latest? h.stack).map fun (cell, rest) => h.leave cell rest

def oldest? (h : Handles) : Option (Nat × Handles) :=
  (Stack.oldest? h.stack).map fun (cell, rest) => h.leave cell rest

/-! ## Comparing -/

def count (h : Handles) (cell : Cell) : Nat :=
  h.cells.count (some cell) + h.stack.count cell

/-- Handles to one bundle are equal whatever the bundle holds. -/
def same (h : Handles) (a b : Cell) : Bool :=
  a = b || h.store.read a == h.store.read b

/-- The live handles to a bundle, in ascending order. -/
def aliases (h : Handles) (cell : Cell) : List Nat :=
  (h.cells.zipIdx.filter (·.1 = some cell)).map (·.2)

def term (h : Handles) (cell : Cell) : String :=
  Text.record "Bundle"
    [ ("handles", toString (h.count cell)),
      ("messages", Text.bracketed ((h.store.read cell).messages.map Message.term)) ]

end Handles

end Tangible
