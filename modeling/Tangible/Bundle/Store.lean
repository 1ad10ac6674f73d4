import Tangible.Bundle.Processor

/-!
# Stores

Bundles are shared: several handles and stacks may hold the same bundle, and a change through one
of them is seen through all. A store keeps the bundles, a `Cell` names one of them, and copies of a
cell name the same bundle.
-/

namespace Tangible

structure Cell where
  index : Nat
deriving DecidableEq, Repr

structure Store where
  bundles : List Bundle := []

namespace Store

def read (s : Store) (c : Cell) : Bundle :=
  (s.bundles[c.index]?).getD {}

def write (s : Store) (c : Cell) (b : Bundle) : Store :=
  ⟨s.bundles.set c.index b⟩

/-- Puts a bundle into a cell of its own. -/
def add (s : Store) (b : Bundle) : Cell × Store :=
  (⟨s.bundles.length⟩, ⟨s.bundles ++ [b]⟩)

def addAll (s : Store) : List Bundle → List Cell × Store
  | [] => ([], s)
  | b :: rest =>
    let (cell, s) := s.add b
    let (cells, s) := s.addAll rest
    (cell :: cells, s)

/-- Runs a processor from one cell to another, which may be the same. -/
def process (s : Store) (p : Processor) (input output : Cell) : Except Error Unit × Store :=
  let outcome := p (s.read input) (s.read output)
  (outcome.result, s.write output outcome.output)

end Store

end Tangible
