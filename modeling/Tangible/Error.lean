import Tangible.Graph.Topology
import Tangible.Osc.Decode

/-!
# Errors

What can go wrong with messages, bundles and packets. The reason of a geometric error and of a
malformed bundle is free text, because processors outside the library give reasons of their own.
-/

namespace Tangible

inductive Error where
  | topology (shape : Topology)
  | outOfRange (index size : Nat)
  | decode (cause : Osc.DecodeError)
  | geometry (reason : String)
  | malformed (reason : String)
deriving DecidableEq, Repr

def Error.text : Error → String
  | .topology shape => "topology error: graph is not a valid " ++ shape.text
  | .outOfRange index size => s!"index {index} out of range for stack of {size} bundles"
  | .decode cause => "decode error: " ++ cause.text
  | .geometry reason => "geometry error: " ++ reason
  | .malformed reason => "malformed bundle: " ++ reason

end Tangible
