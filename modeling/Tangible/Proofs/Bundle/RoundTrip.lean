import Tangible.Bundle.Basic
import Tangible.Proofs.Message.RoundTrip

/-!
# Bundles survive the wire

A bundle of messages that the wire carries is decoded to a packet with the time of its frame, and
the default registry reads all of its messages from this packet, in order and equal up to the
handles of their graphs (`Bundle.decode_encode`). The size of the encoded bundle has to fit the
words that the wire counts lengths with.
-/

namespace Tangible

namespace Bundle

variable {b : Bundle}

theorem toPacket_eq (b : Bundle) :
    b.toPacket = .bundle b.time ((b.messages.map Message.toOsc).map .message) := by
  rw [toPacket, List.map_map]
  rfl

theorem encode_toOsc_length_lt {m : Message} (mem : m ∈ b.messages) :
    m.toOsc.encode.length < b.encode.length := by
  rw [encode, toPacket_eq]
  exact Osc.Packet.encode_length_lt (List.mem_map_of_mem mem)

/-- The packet that arrives is the one that was sent. -/
theorem decodePacket_encode (carried : ∀ m ∈ b.messages, m.Carried)
    (fits : ∀ m ∈ b.messages, m.toOsc.encode.length < 2 ^ 32) :
    decodePacket b.encode = .ok b.toPacket := by
  have portable : ∀ m ∈ b.messages.map Message.toOsc, m.Portable := by
    rintro _ mem
    obtain ⟨m, inside, rfl⟩ := List.mem_map.mp mem
    exact (carried m inside).portable
  have small : ∀ m ∈ b.messages.map Message.toOsc, m.encode.length < 2 ^ 32 := by
    rintro _ mem
    obtain ⟨m, inside, rfl⟩ := List.mem_map.mp mem
    exact fits m inside
  rw [decodePacket, encode, toPacket_eq, Osc.Packet.decode_encode_bundle portable small]

theorem forall₂_decode {ms : List Message} (reachable : ∀ m ∈ ms, m.Reachable)
    (carried : ∀ m ∈ ms, m.Carried) (fits : ∀ m ∈ ms, m.toOsc.encode.length < 2 ^ 32)
    {acceptUnknown : Bool} (wanted : ∀ m ∈ ms, m.kind = .generic → acceptUnknown = true) :
    List.Forall₂ Message.Same ms
      ((ms.map Message.toOsc).filterMap (Registry.defaults.decode? · acceptUnknown)) := by
  induction ms with
  | nil => exact .nil
  | cons m ms ih =>
    rw [List.forall_mem_cons] at reachable carried fits wanted
    have args : m.args.length ≤ 2 ^ 32 :=
      Nat.le_trans m.toOsc.args_length_le (Nat.le_of_lt fits.1)
    obtain ⟨m', read, same⟩ := Registry.decode?_toOsc reachable.1 carried.1 args wanted.1
    rw [List.map_cons, List.filterMap_cons, read]
    exact .cons same (ih reachable.2 carried.2 fits.2 wanted.2)

/-- All messages of the packet are decoded, each to the one that was sent. -/
theorem decodeAll_toPacket (reachable : ∀ m ∈ b.messages, m.Reachable)
    (carried : ∀ m ∈ b.messages, m.Carried)
    (fits : ∀ m ∈ b.messages, m.toOsc.encode.length < 2 ^ 32) {acceptUnknown : Bool}
    (wanted : ∀ m ∈ b.messages, m.kind = .generic → acceptUnknown = true) :
    List.Forall₂ Message.Same b.messages
      (Registry.defaults.decodeAll b.toPacket acceptUnknown) := by
  rw [Registry.decodeAll, toPacket_eq, Osc.Packet.messages_bundle]
  exact forall₂_decode reachable carried fits wanted

/-- A bundle comes back with its time and with all of its messages. -/
theorem decode_encode (reachable : ∀ m ∈ b.messages, m.Reachable)
    (carried : ∀ m ∈ b.messages, m.Carried) (small : b.encode.length < 2 ^ 32) :
    ∃ content, decodePacket b.encode = .ok (.bundle b.time content) ∧
      List.Forall₂ Message.Same b.messages
        (Registry.defaults.decodeAll (.bundle b.time content) true) := by
  have fits : ∀ m ∈ b.messages, m.toOsc.encode.length < 2 ^ 32 :=
    fun m mem => Nat.lt_trans (encode_toOsc_length_lt mem) small
  exact ⟨_, decodePacket_encode carried fits,
    decodeAll_toPacket reachable carried fits fun _ _ _ => rfl⟩

/-- Two links of session 5 with session 6. -/
def sampleStar : Links .star :=
  (Links.ofArgs? [.ofId 5, .bool true, .ofId 6, .ofId 0x10002, .ofId 6, .ofId 0x30004]).getD {}

/-- A frame with a source, a star, patterns that stand for no number beside a blob in a nested array,
and an alive list. -/
def sample : Bundle where
  messages :=
    [ .frame { id := 0xffffffff, time := ⟨7, 9⟩, application := "é" },
      .linkStar sampleStar,
      .generic ⟨"/x", [.float ⟨0xffc00001⟩, .array [.double ⟨0x7ff8000000000007⟩, .nil,
        .array [.blob [1, 2, 3], .string ""]]]⟩,
      .alive [5, 6] ]

theorem sampleStar_read :
    Links.ofArgs? [.ofId 5, .bool true, .ofId 6, .ofId 0x10002, .ofId 6, .ofId 0x30004] =
      some sampleStar := by rfl

theorem sampleStar_args : sampleStar.args =
    [.ofId 5, .bool true, .ofId 6, .ofId 0x10002, .ofId 6, .ofId 0x30004] := by rfl

theorem decode_encode_sample :
    (∀ m ∈ sample.messages, m.Reachable) ∧ (∀ m ∈ sample.messages, m.Carried) ∧
      sample.encode.length < 2 ^ 32 ∧
      ∃ content, decodePacket sample.encode = .ok (.bundle ⟨7, 9⟩ content) ∧
        List.Forall₂ Message.Same sample.messages
          (Registry.defaults.decodeAll (.bundle ⟨7, 9⟩ content) true) := by
  have reachable : ∀ m ∈ sample.messages, m.Reachable := by
    simp only [sample, List.forall_mem_cons]
    exact ⟨trivial, .ofArgs sampleStar_read, trivial, trivial, by simp⟩
  have carried : ∀ m ∈ sample.messages, m.Carried := by
    simp only [sample, List.forall_mem_cons]
    refine ⟨⟨?_, by simp, by simp⟩, ⟨?_, by simp, by simp⟩, ⟨?_, by simp, ?_⟩, ⟨?_, by simp, by simp⟩,
      by simp⟩
    · have args : (Message.frame { id := 0xffffffff, time := ⟨7, 9⟩, application := "é" }).args =
        [.ofId 0xffffffff, .time ⟨7, 9⟩, .string "é", .ofId 0, .ofId 0, .ofId 0] := by rfl
      simp [args, Osc.Arg.Portable, Osc.Arg.ofId]
    · simp [Message.args, sampleStar_args, Osc.Arg.Portable, Osc.Arg.ofId]
    · simp [Message.args, Osc.Arg.Portable, Osc.AllPortable]
    · intro g same
      obtain rfl := Message.generic.inj same
      refine ⟨by decide, by decide, fun kind => ?_⟩
      cases kind <;> simp [Kind.address?]
    · simp [Message.args, Run.ofIds, Osc.Arg.Portable, Osc.Arg.ofId]
  have small : sample.encode.length < 2 ^ 32 := by decide +kernel
  exact ⟨reachable, carried, small, decode_encode reachable carried small⟩

end Bundle

end Tangible
