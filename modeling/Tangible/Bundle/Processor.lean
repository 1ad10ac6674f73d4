import Tangible.Bundle.Basic

/-!
# Processors

A processor writes an output bundle from an input bundle. It sees what the output held before,
which is the input itself where a bundle is edited in place, and returns what the output holds
afterwards, also when it fails.
-/

namespace Tangible

/-- The output after a processor ran, and whether it succeeded. -/
structure Outcome where
  output : Bundle
  result : Except Error Unit

abbrev Processor := (input output : Bundle) → Outcome

namespace Outcome

def ok (output : Bundle) : Outcome := ⟨output, .ok ()⟩

def fail (output : Bundle) (e : Error) : Outcome := ⟨output, .error e⟩

end Outcome

/-- The bundle that a successful processor makes of an input, written into a new bundle. -/
def Processor.run (p : Processor) (input : Bundle) : Except Error Bundle :=
  let outcome := p input {}
  outcome.result.map fun _ => outcome.output

end Tangible
