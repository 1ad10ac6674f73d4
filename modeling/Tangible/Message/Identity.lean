import Tangible.Message.Halves
import Tangible.Message.Run

/-!
# Identity of a component

Components carry three identifiers: the session, the component class, and the type and user of the
contact, which travel in one word.
-/

namespace Tangible

open Osc (Arg)

structure Identity where
  sessionId : UInt32 := 0
  typeId : UInt16 := 0
  userId : UInt16 := 0
  componentId : UInt32 := 0
deriving BEq, DecidableEq, Repr

namespace Identity

def typeUser (i : Identity) : UInt32 :=
  joinHalves i.typeId i.userId

def ofWords (session typeUser component : UInt32) : Identity :=
  ⟨session, upperHalf typeUser, lowerHalf typeUser, component⟩

def args (i : Identity) : List Arg :=
  Run.ofIds [i.sessionId, i.typeUser, i.componentId]

def text (i : Identity) : String :=
  s!"s_id={i.sessionId} tu=({i.typeId},{i.userId}) c_id={i.componentId}"

end Identity

end Tangible
