import Mathlib
import Tangible.Proofs.Network.Assembly

/-!
# Packaging

A client hears nothing but messages: how they are wrapped in bundles, what the time tags of these
bundles are, and which packets they come in makes no difference. Packets with the same messages in
the same order (`flattened`) bring every client into the same state, and a packet that cannot be
decoded is an error that changes nothing (`Client.processAll_of_flattened`).
-/

namespace Tangible

/-- The messages of packets in wire order, out of all bundles they are nested in. Packets that
cannot be decoded have none. -/
def flattened (packets : List Datagram) : List Osc.Message :=
  packets.flatMap fun packet =>
    match decodePacket packet with
    | .ok content => content.messages
    | .error _ => []

theorem flattened_append (before rest : List Datagram) :
    flattened (before ++ rest) = flattened before ++ flattened rest :=
  List.flatMap_append

theorem flattened_cons_error {packet : Datagram} {e : Error}
    (undecoded : decodePacket packet = .error e) (rest : List Datagram) :
    flattened (packet :: rest) = flattened rest := by
  rw [flattened, List.flatMap_cons, undecoded]
  rfl

/-- Every message is decoded on its own. -/
theorem Receiver.heard_eq (r : Receiver) (packets : List Datagram) :
    r.heard packets = (flattened packets).filterMap (r.registry.decode? · r.acceptUnknown) := by
  induction packets with
  | nil => rfl
  | cons packet rest ih =>
    cases decoded : decodePacket packet with
    | error e =>
      rw [heard_cons_error (messages?_eq_error_iff.mpr decoded), flattened_cons_error decoded, ih]
    | ok content =>
      have here : flattened (packet :: rest) = content.messages ++ flattened rest := by
        rw [flattened, List.flatMap_cons, decoded]
        rfl
      rw [heard_cons_ok (messages?_of_decoded decoded), here, List.filterMap_append, ih, Registry.decodeAll]

/-- Packets with the same messages in the same order complete the same number of bundles and leave
the same client. A packet is in error exactly if it cannot be decoded, then it leaves the client as
it was, and among others it is as if it had never come. -/
theorem Client.processAll_of_flattened (c : Client) {packets packets' : List Datagram}
    (same : flattened packets = flattened packets') :
    c.processAll packets = c.processAll packets' ∧
      (∀ packet e, (c.process packet).1 = .error e ↔ decodePacket packet = .error e) ∧
      (∀ packet e, (c.process packet).1 = .error e → (c.process packet).2 = c) ∧
      ∀ before packet rest e, decodePacket packet = .error e →
        c.processAll (before ++ packet :: rest) = c.processAll (before ++ rest) := by
  have alike {packets packets' : List Datagram} (same : flattened packets = flattened packets') :
      c.processAll packets = c.processAll packets' := by
    rw [processAll_eq, processAll_eq, Receiver.heard_eq, Receiver.heard_eq, same]
  refine ⟨alike same, fun _ _ => process_error_iff, fun packet e failed => ?_,
    fun before packet rest e undecoded => alike ?_⟩
  · rw [process_error (process_error_iff.mp failed)]
  · rw [flattened_append, flattened_cons_error undecoded, flattened_append]

/-- A frame and its alive list in one packet, the frame in two bundles, and in packets of their own
with noise between them. -/
theorem Client.processAll_of_flattened_nested :
    let frame := (Message.frame { id := 7 }).toOsc
    let alive := (Message.alive [3]).toOsc
    let nested := [(Osc.Packet.bundle ⟨1, 2⟩
      [.bundle ⟨0, 1⟩ [.bundle ⟨9, 9⟩ [.message frame], .bundle ⟨5, 0⟩ []], .message alive]).encode]
    let loose := [frame.encode, [1, 2], alive.encode]
    flattened nested = flattened loose ∧ (processAll {} nested).1 = 1 ∧
      (processAll {} nested).2.bundles = [⟨[.frame { id := 7 }, .alive [3]]⟩] ∧
      (processAll {} nested).2.receiver.assembly = ⟨none, 7⟩ ∧
      ∀ c : Client, c.processAll nested = c.processAll loose ∧
        c.processAll loose = c.processAll [frame.encode, alive.encode] := by
  intro frame alive nested loose
  have messages : flattened nested = [frame, alive] := by cbv
  have messages' : flattened loose = [frame, alive] := by cbv
  have noise : (decodePacket [1, 2]).toOption = none := by cbv
  have same := messages.trans messages'.symm
  have heard : processAll {} nested = (1, hearing {} [.frame { id := 7 }, .alive [3]]) := by
    rw [processAll_eq, Receiver.heard_eq, messages]
    cbv
  rw [heard]
  refine ⟨same, rfl, by cbv, by cbv, fun c => ?_⟩
  · obtain ⟨alike, -, -, skips⟩ := c.processAll_of_flattened same
    refine ⟨alike, ?_⟩
    cases undecoded : decodePacket [1, 2] with
    | error e => exact skips [frame.encode] _ [alive.encode] e undecoded
    | ok content => simp [undecoded, Except.toOption] at noise

end Tangible
