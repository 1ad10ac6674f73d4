import Tangible.Proofs.Bundle.Framed
import Tangible.Proofs.Bundle.RoundTrip
import Tangible.Proofs.Network.Assembly
import Tangible.Proofs.Osc.Prefix

/-!
# Truncated packets

The first bytes of a bundle are a packet more often than not: an element that is cut is ignored with
all behind it, and the elements before it are decoded. The alive list of a framed bundle is its last
element, so it is never among them, and none of the others is read as an alive list, because an
element keeps its address whatever becomes of its arguments (`Bundle.isAlive_of_cut`). So a
truncated packet does not complete a bundle (`Client.process_truncated`). Texts may hold NULs and
blobs may have any length, with which an element is not read as it was written, or not at all.
-/

namespace Tangible

/-- No alive list is decoded from the first bytes of a framed bundle. -/
theorem Bundle.isAlive_of_cut {b : Bundle} (framed : b.Framed)
    (known : ∀ m ∈ b.messages, m.kind ≠ .generic) (small : b.encode.length < 2 ^ 32)
    {pre rest : Datagram} (split : pre ++ rest = b.encode) (cut : rest ≠ [])
    {content : Osc.Packet} (decoded : decodePacket pre = .ok content) (acceptUnknown : Bool) :
    ∀ m ∈ Registry.defaults.decodeAll content acceptUnknown, m.isAlive = false := by
  have named {m : Message} (mem : m ∈ b.messages) := m.address?_toOsc (known m mem)
  have fits {m : Message} (mem : m ∈ b.messages) : m.toOsc.encode.length < 2 ^ 32 :=
    Nat.lt_trans (encode_toOsc_length_lt mem) small
  obtain ⟨frame, body, ids, whole, plain⟩ := framed
  have before : ∀ m ∈ b.messages.dropLast, m.isAlive = false := by
    rw [whole, List.dropLast_concat, List.forall_mem_cons]
    exact ⟨rfl, fun m mem => (plain m mem).2⟩
  have decoded : Osc.Packet.decode pre = .ok content := by
    rw [decodePacket] at decoded
    split at decoded
    · next read => rw [read, Except.ok.inj decoded]
    · simp at decoded
  intro m mem
  obtain ⟨o, inside, read⟩ := List.mem_filterMap.mp mem
  rw [encode, toPacket_eq] at split
  obtain ⟨o', listed, same⟩ := Osc.Packet.address_of_decode_cut
    (List.forall_mem_map.mpr fun m mem => (m.clean (named mem)).1)
    (List.forall_mem_map.mpr fun m mem => (m.clean (named mem)).2)
    (List.forall_mem_map.mpr fun m mem => fits mem) split cut decoded inside
  rw [← List.map_dropLast] at listed
  obtain ⟨m', among, rfl⟩ := List.mem_map.mp listed
  have kind := Registry.kind_of_address
    ((named (List.mem_of_mem_dropLast among)).trans (congrArg some same.symm)) read
  rw [Message.isAlive, kind]
  exact before m' among

/-- A truncated packet is an error that changes nothing, or it completes no bundle and the client
still has the stack and the last frame that it had. -/
theorem Client.process_truncated {c : Client} (defaults : c.receiver.registry = .defaults)
    {b : Bundle} (checked : b.checkOutput = .ok ())
    (known : ∀ m ∈ b.messages, m.kind ≠ .generic) (small : b.encode.length < 2 ^ 32)
    {pre : Datagram} (front : pre <+: b.encode) (cut : pre ≠ b.encode) :
    (∃ e, c.process pre = (.error e, c)) ∨
      ∃ c', c.process pre = (.ok 0, c') ∧ c'.stack = c.stack ∧ c'.bundles = c.bundles ∧
        c'.lastFrameId = c.lastFrameId := by
  obtain ⟨rest, split⟩ := front
  have missing : rest ≠ [] := by
    rintro rfl
    exact cut (by rw [← split, List.append_nil])
  cases decoded : decodePacket pre with
  | error e => exact .inl ⟨e, process_error decoded⟩
  | ok content =>
    have messages := Receiver.messages?_of_decoded (r := c.receiver) decoded
    rw [defaults] at messages
    have noAlive : ∀ m ∈ Registry.defaults.decodeAll content c.receiver.acceptUnknown,
        m.isAlive = false :=
      Bundle.isAlive_of_cut (Bundle.checkOutput_eq_ok_iff.mp checked) known small split missing
        decoded c.receiver.acceptUnknown
    obtain ⟨none, last⟩ := c.receiver.assembly.feedAll_open noAlive
    refine .inr ⟨c.hearing (Registry.defaults.decodeAll content c.receiver.acceptUnknown), ?_, ?_⟩
    · rw [process_eq messages, none]
      rfl
    · rw [hearing, none, pushAll_nil]
      exact ⟨rfl, rfl, last⟩

/-- A text with a NUL and a blob of four bytes between a frame and an alive list. The packet has 112
bytes. -/
def brittle : Bundle where
  messages := [.frame { id := 7 }, .data ⟨1, "a\x00b", .binary [1, 2, 3, 4]⟩, .alive [3]]

theorem Client.process_truncated_brittle :
    (({} : Client).process (brittle.encode.take 111)).1 = .ok 0 ∧
      ∀ n < brittle.encode.length,
        (∃ e, ({} : Client).process (brittle.encode.take n) = (.error e, {})) ∨
          ∃ c', ({} : Client).process (brittle.encode.take n) = (.ok 0, c') ∧ c'.stack = [] ∧
            c'.bundles = [] ∧ c'.lastFrameId = 0 := by
  have checked : brittle.checkOutput = .ok () := by rfl
  have known : ∀ m ∈ brittle.messages, m.kind ≠ .generic := by simp [brittle, Message.kind]
  have small : brittle.encode.length < 2 ^ 32 := by decide +kernel
  refine ⟨by cbv, fun n inside => ?_⟩
  refine process_truncated rfl checked known small (List.take_prefix ..) fun whole => ?_
  have length := congrArg List.length whole
  rw [List.length_take] at length
  omega

end Tangible
