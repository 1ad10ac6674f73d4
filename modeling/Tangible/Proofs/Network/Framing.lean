import Tangible.Proofs.Bundle.RoundTrip
import Tangible.Proofs.Network.Sending

/-!
# Framing on the wire

A server frames its bundles by the kinds of their messages, and a receiver by their addresses. The
two agree on all messages but one: a generic message may have the address of frames or of alive
lists, and a server queues it.

`framed_on_wire_iff`: every send of every run succeeds, and its packet is framed by addresses unless
one of its generic messages has an address of the frame. `generic_alive_unframed` is such a send.
-/

namespace Tangible

/-- The first message of a bundle and no other has the address of frames, and the last one and no
other that of alive lists. -/
def Osc.Packet.Framed (packet : Osc.Packet) : Prop :=
  ∃ time first body last, packet = .bundle time ((first :: body ++ [last]).map .message) ∧
    first.address = "/tuio2/frm" ∧ last.address = "/tuio2/alv" ∧
    ∀ m ∈ body, m.address ≠ "/tuio2/frm" ∧ m.address ≠ "/tuio2/alv"

/-- A kind and a generic message are all that have the address of the kind. -/
theorem Message.address_eq_iff {kind : Kind} {address : String}
    (named : kind.address? = some address) (m : Message) :
    m.address = address ↔ m.kind = kind ∨ ∃ g, m = .generic g ∧ g.address = address := by
  constructor
  · intro here
    cases other : m.kind.address? with
    | none =>
      cases m with
      | generic g => exact .inr ⟨g, rfl, here⟩
      | _ => simp [Message.kind, Kind.address?] at other
    | some address' =>
      have same : m.kind.address? = kind.address? := by
        rw [other, ← address_of_kind other, here, named]
      rw [named] at same
      exact .inl (Registry.address?_injective kind (Kind.mem_catalog named) m.kind
        (Kind.mem_catalog same) (same.trans named.symm))
  · rintro (rfl | ⟨g, rfl, here⟩)
    · exact address_of_kind named
    · exact here

theorem Message.unframed_iff {m : Message} (plain : m.isFrame = false ∧ m.isAlive = false) :
    (m.address ≠ "/tuio2/frm" ∧ m.address ≠ "/tuio2/alv") ↔
      ∀ g, m = .generic g → g.address ≠ "/tuio2/frm" ∧ g.address ≠ "/tuio2/alv" := by
  have notFrame : m.kind ≠ .frame := by simpa [isFrame] using plain.1
  have notAlive : m.kind ≠ .alive := by simpa [isAlive] using plain.2
  have frames : Kind.frame.address? = some "/tuio2/frm" := rfl
  have alives : Kind.alive.address? = some "/tuio2/alv" := rfl
  rw [Ne, Ne, address_eq_iff frames, address_eq_iff alives]
  constructor
  · rintro ⟨clearFrame, clearAlive⟩ g rfl
    exact ⟨fun here => clearFrame (.inr ⟨g, rfl, here⟩), fun here => clearAlive (.inr ⟨g, rfl, here⟩)⟩
  · intro clear
    constructor
    · rintro (here | ⟨g, rfl, here⟩)
      · exact notFrame here
      · exact (clear g rfl).1 here
    · rintro (here | ⟨g, rfl, here⟩)
      · exact notAlive here
      · exact (clear g rfl).2 here

/-- Of a bundle with two ends only the middle is free. -/
theorem Osc.Packet.framed_iff {time : Timetag} {first last : Osc.Message}
    {body : List Osc.Message} :
    (Packet.bundle time ((first :: body ++ [last]).map .message)).Framed ↔
      first.address = "/tuio2/frm" ∧ last.address = "/tuio2/alv" ∧
        ∀ m ∈ body, m.address ≠ "/tuio2/frm" ∧ m.address ≠ "/tuio2/alv" := by
  constructor
  · rintro ⟨time', first', body', last', same, ends⟩
    obtain ⟨-, same⟩ := Packet.bundle.inj same
    have same := List.map_injective_iff.mpr (fun _ _ => Packet.message.inj) same
    simp only [List.cons_append, List.cons.injEq, List.append_singleton_inj] at same
    obtain ⟨rfl, rfl, rfl⟩ := same
    exact ends
  · exact fun ends => ⟨time, first, body, last, rfl, ends⟩

/-- Which messages stand between a frame and an alive list decides about the framing. -/
theorem Bundle.framed_iff {frame : Frame} {body : List Message} {ids : List UInt32}
    (plain : ∀ m ∈ body, m.isFrame = false ∧ m.isAlive = false) :
    (Bundle.toPacket ⟨.frame frame :: body ++ [.alive ids]⟩).Framed ↔
      ∀ g, .generic g ∈ body → g.address ≠ "/tuio2/frm" ∧ g.address ≠ "/tuio2/alv" := by
  rw [toPacket_eq, List.map_append, List.map_cons, List.map_singleton, Osc.Packet.framed_iff]
  constructor
  · rintro ⟨-, -, clear⟩ g mem
    exact (Message.unframed_iff (plain _ mem)).mp (clear _ (List.mem_map_of_mem mem)) g rfl
  · refine fun clear => ⟨rfl, rfl, fun o mem => ?_⟩
    obtain ⟨m, inside, rfl⟩ := List.mem_map.mp mem
    exact (Message.unframed_iff (plain m inside)).mpr fun g same => clear g (same ▸ inside)

/-- The packets of a run are framed by their addresses exactly if no generic message among them has
one of the addresses of a frame. -/
theorem framed_on_wire_iff (c : Config.Server) (calls : List Server.Call) :
    ∀ result ∈ ((Server.ofConfig c).run calls).1, ∃ sent : Server.Sent, result = .ok sent ∧
      sent.packet = sent.bundle.toPacket.encode ∧
      (sent.bundle.toPacket.Framed ↔
        ∀ g, .generic g ∈ sent.bundle.messages →
          g.address ≠ "/tuio2/frm" ∧ g.address ≠ "/tuio2/alv") := by
  intro result mem
  obtain ⟨s, now, plain, rfl⟩ := Server.send_of_mem_run (Server.plain_ofConfig c) mem
  refine ⟨_, plain.send now, rfl, ?_⟩
  rw [Server.prepare, Bundle.framed_iff plain.pending]
  simp

/-- A generic message with the address of alive lists is queued, and sent. -/
def genericAlive : List Server.Call :=
  [.append (.generic ⟨"/tuio2/alv", [.ofId 7]⟩), .send ⟨0, 1⟩]

/-- Such a message is not refused, and the packet ends with two alive lists. -/
theorem generic_alive_unframed :
    ∃ sent : Server.Sent, .ok sent ∈ ((Server.ofConfig {}).run genericAlive).1 ∧
      ¬ sent.bundle.toPacket.Framed := by
  have sends : ∃ sent : Server.Sent, .ok sent ∈ ((Server.ofConfig {}).run genericAlive).1 ∧
      .generic ⟨"/tuio2/alv", [.ofId 7]⟩ ∈ sent.bundle.messages :=
    ⟨_, List.mem_singleton_self _, List.mem_cons_of_mem _ (List.mem_cons_self ..)⟩
  obtain ⟨sent, mem, inside⟩ := sends
  obtain ⟨_, same, -, framed⟩ := framed_on_wire_iff {} genericAlive _ mem
  obtain rfl := Except.ok.inj same
  exact ⟨sent, mem, fun holds => (framed.mp holds _ inside).2 rfl⟩

end Tangible
