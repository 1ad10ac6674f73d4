import Tangible.Message.Basic

/-!
# Messages that carry graphs

The operations that link messages have in common whatever their shape, and skeletons whatever their
dimension. They are undefined for all other messages.
-/

namespace Tangible.Message

def clearGraph? : Message → Option Message
  | .linkStar l => some (.linkStar l.clearGraph)
  | .linkChain l => some (.linkChain l.clearGraph)
  | .linkTree l => some (.linkTree l.clearGraph)
  | .skeleton2 s => some (.skeleton2 s.clearGraph)
  | .skeleton3 s => some (.skeleton3 s.clearGraph)
  | _ => none

/-- Gives a link message another graph, which is refused unless it has the right shape. -/
def withLinks? (m : Message) (graph : LinkGraph) : Option (Except Topology Message) :=
  match m with
  | .linkStar l => some ((l.withGraph graph).map .linkStar)
  | .linkChain l => some ((l.withGraph graph).map .linkChain)
  | .linkTree l => some ((l.withGraph graph).map .linkTree)
  | _ => none

/-- Whether the links of a link message are physical. -/
def physical? : Message → Option Bool
  | .linkStar l => some l.physical
  | .linkChain l => some l.physical
  | .linkTree l => some l.physical
  | _ => none

def withPhysical? (m : Message) (physical : Bool) : Option Message :=
  match m with
  | .linkStar l => some (.linkStar (l.withPhysical physical))
  | .linkChain l => some (.linkChain (l.withPhysical physical))
  | .linkTree l => some (.linkTree (l.withPhysical physical))
  | _ => none

end Tangible.Message
