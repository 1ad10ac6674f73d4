import Tangible.Osc.Arg

/-!
# Packets

A packet is one message or a time-tagged bundle of packets. `Packet.messages` lists the messages
of a packet in order, whatever the nesting.
-/

namespace Tangible.Osc

structure Message where
  address : String
  args : List Arg
deriving BEq

inductive Packet where
  | message (message : Message)
  | bundle (time : Timetag) (content : List Packet)

mutual

def Packet.messages : Packet → List Message
  | .message m => [m]
  | .bundle _ content => messagesOf content

def messagesOf : List Packet → List Message
  | [] => []
  | packet :: rest => packet.messages ++ messagesOf rest

end

end Tangible.Osc
