import Tangible.Proofs.Bundle.RoundTrip
import Tangible.Proofs.Network.Assembly
import Tangible.Proofs.Osc.Prefix

/-!
# The length of a payload

Binary payloads travel as blobs. The writer fills a blob up to a multiple of four bytes, and the
reader skips to the next multiple of four behind it, so behind a blob that needs no filling it
skips four bytes that nobody wrote. In an element of a bundle these bytes are missing: the element
is lost with everything behind it, the alive list included, and the bundle is never completed.

`payload_accepted_iff` is the exact condition for one payload between a frame and an alive list: its
length is not a multiple of four, the application of the frame has no NUL, and every element fits
the word that counts its bytes. The empty payload is one of those that are lost
(`payload_empty_lost`).
-/

namespace Tangible

open Osc (Arg)

/-! ## Aligned blobs -/

namespace Osc

/-- Arguments in front of an aligned blob are read, and then the blob is not. -/
theorem Read.args_blob_fails {bytes : List UInt8} (aligned : 4 ∣ bytes.length)
    (small : bytes.length < 2 ^ 32) {front : List Arg} (flat : ∀ a ∈ front, ∀ items, a ≠ .array items)
    (portable : ∀ a ∈ front, a.Portable) (short : ∀ a ∈ front, a.Short) (current : List Arg)
    (offset : Nat) (start : 4 ∣ offset) :
    Read.args (wireTagsOf (front ++ [.blob bytes])) current []
      ⟨offset, encodeArgs (front ++ [.blob bytes])⟩ = .error .endOfData := by
  induction front generalizing current offset with
  | nil =>
    have opens : ('b' : Char) ≠ '[' := by decide
    have closes : ('b' : Char) ≠ ']' := by decide
    simp only [List.nil_append, wireTagsOf, Arg.wireTags, Arg.tag, encodeArgs, Arg.encode,
      List.append_nil]
    rw [Read.args_tag opens closes]
    have failed : Read.arg 'b' ⟨offset, encodeBlob bytes⟩ = .error .endOfData :=
      Read.bind_error (Read.blob_aligned_fails aligned small offset start)
    exact Read.bind_error failed
  | cons a front ih =>
    rw [List.forall_mem_cons] at flat portable short
    obtain ⟨single, opens, closes⟩ := Read.wireTags_flat flat.1
    have here := Read.reads_arg a flat.1 portable.1 short.1
    rw [List.cons_append, wireTagsOf, encodeArgs, single, List.singleton_append,
      Read.args_tag opens closes]
    exact (Read.bind_ok (here.run offset _ start)).trans
      (ih flat.2 portable.2 short.2 _ _ (Nat.dvd_add start here.aligned))

theorem Message.whole_fails {m : Message} (clean : '\x00' ∉ m.address.toList) {bytes : List UInt8}
    (aligned : 4 ∣ bytes.length) (small : bytes.length < 2 ^ 32) {front : List Arg}
    (args : m.args = front ++ [.blob bytes])
    (plain : ∀ a ∈ front, (∀ items, a ≠ .array items) ∧ a.Portable ∧ a.Short) {offset : Nat}
    (start : 4 ∣ offset) : Read.whole ⟨offset, m.encode⟩ = .error .endOfData := by
  have tagsClean : '\x00' ∉ (String.ofList (',' :: wireTagsOf m.args)).toList := by
    simpa using nul_notMem_wireTagsOf m.args
  have tagged : ¬ (String.ofList (',' :: wireTagsOf m.args)).utf8ByteSize ≤ 1 := by
    rw [tagString_short_iff, wireTagsOf_eq_flatMap, List.flatMap_eq_nil_iff, args]
    exact fun none => wireTags_ne_nil _ (none (.blob bytes) (by simp))
  have address := Read.reads_text clean
  have tags := Read.reads_text tagsClean
  have here := Nat.dvd_add start address.aligned
  have behind := Nat.dvd_add here tags.aligned
  rw [encode, List.append_assoc]
  refine (Read.bind_ok (address.run offset _ start)).trans ?_
  refine (Read.bind_ok (tags.run _ _ here)).trans ?_
  rw [if_neg tagged, String.toList_ofList, List.tail_cons, args]
  exact Read.bind_error (Read.args_blob_fails aligned small (fun a mem => (plain a mem).1)
    (fun a mem => (plain a mem).2.1) (fun a mem => (plain a mem).2.2) [] _ (args ▸ behind))

end Osc

/-! ## Payloads -/

/-- A message that carries binary data in one blob. -/
inductive Message.CarriesBytes (bytes : List UInt8) : Message → Prop where
  | raw (sessionId : UInt32) (spacing : Single) :
      CarriesBytes bytes (.raw ⟨sessionId, spacing, bytes⟩)
  | data (sessionId : UInt32) {mime : String} :
      '\x00' ∉ mime.toList → CarriesBytes bytes (.data ⟨sessionId, mime, .binary bytes⟩)

namespace Message

variable {bytes : List UInt8} {m : Message}

/-- What stands in front of the blob is plain. -/
theorem CarriesBytes.args (carries : m.CarriesBytes bytes) :
    ∃ front, m.args = front ++ [.blob bytes] ∧
      ∀ a ∈ front, (∀ items, a ≠ .array items) ∧ a.Portable ∧ a.Short := by
  cases carries with
  | raw sessionId spacing =>
    refine ⟨[.ofId sessionId, .float spacing], rfl, ?_⟩
    simp [Arg.ofId, Arg.Portable, Arg.Short]
  | data sessionId clean =>
    refine ⟨[.ofId sessionId, .string _], rfl, ?_⟩
    simp [Arg.ofId, Arg.Portable, Arg.Short, clean]

theorem CarriesBytes.catalog (carries : m.CarriesBytes bytes) :
    ∃ address, m.kind.address? = some address ∧ m.isFrame = false ∧ m.isAlive = false := by
  cases carries <;> exact ⟨_, rfl, rfl, rfl⟩

theorem CarriesBytes.reachable (carries : m.CarriesBytes bytes) : m.Reachable := by
  cases carries <;> trivial

theorem CarriesBytes.carried (carries : m.CarriesBytes bytes) (ragged : ¬ 4 ∣ bytes.length) :
    m.Carried := by
  obtain ⟨front, args, plain⟩ := carries.args
  refine ⟨?_, ?_, ?_⟩
  · intro arg mem
    rw [args, List.mem_append, List.mem_singleton] at mem
    rcases mem with before | rfl
    · exact (plain arg before).2.1
    · exact ragged
  · rintro i rfl
    cases carries
  · rintro g rfl
    cases carries

/-- A carried message with short blobs is read to the end of its bytes. -/
theorem Carried.exact {m : Message} (carried : m.Carried) (short : ∀ arg ∈ m.args, arg.Short) :
    m.toOsc.Exact :=
  Osc.Message.exact_of_portable carried.portable (Osc.allShort_iff.mpr short)

/-- The message is read to the end of its bytes, or not at all. -/
theorem CarriesBytes.exact (carries : m.CarriesBytes bytes) (small : bytes.length < 2 ^ 32) :
    m.toOsc.Exact := by
  obtain ⟨front, args, plain⟩ := carries.args
  obtain ⟨address, named, _⟩ := carries.catalog
  have clean := m.clean named
  by_cases aligned : 4 ∣ bytes.length
  -- an aligned blob is never read, any other one is portable
  · intro offset m' after start read
    have failed := Osc.Message.whole_fails (m := m.toOsc) clean.1 aligned small args plain start
    rw [failed] at read
    simp at read
  · refine (carries.carried aligned).exact fun arg mem => ?_
    rw [args, List.mem_append, List.mem_singleton] at mem
    rcases mem with before | rfl
    · exact (plain arg before).2.2
    · exact small

theorem CarriesBytes.eq_of_same {m' : Message} (carries : m.CarriesBytes bytes) (same : m.Same m') :
    m' = m := by
  cases carries <;> cases same <;> rfl

/-- What was not kept as unknown was read as its kind. -/
theorem read?_of_decode? {m : Message} {o : Osc.Message} {acceptUnknown : Bool}
    (known : m.kind ≠ .generic) (read : Registry.defaults.decode? o acceptUnknown = some m) :
    m.kind.read? o.args = some m := by
  by_cases listed : ∃ kind : Kind, kind.address? = some o.address
  · obtain ⟨kind, named⟩ := listed
    rw [Registry.decode?_defaults named] at read
    rwa [kind_of_read? read]
  · rw [Registry.decode?_defaults_unknown (not_exists.mp listed)] at read
    split at read
    · obtain rfl := Option.some.inj read
      exact absurd rfl known
    · simp at read

/-- A message with this payload was read from a blob with it. -/
theorem CarriesBytes.small_of_decode? (carries : m.CarriesBytes bytes) {o : Osc.Message}
    {acceptUnknown : Bool} (read : Registry.defaults.decode? o acceptUnknown = some m)
    (given : Osc.AllGiven o.args) : bytes.length < 2 ^ 32 := by
  cases carries with
  | raw sessionId spacing =>
    have read := read?_of_decode? (by simp [kind]) read
    simp only [kind, Kind.read?, Option.map_eq_some_iff, Message.raw.injEq, exists_eq_right] at read
    rw [RawSamples.ofArgs?.eq_def] at read
    split at read
    · next args =>
      simp only [Option.some.injEq, RawSamples.mk.injEq] at read
      rw [← read.2.2]
      exact given (.blob _) (by simp [args])
    · simp at read
  | data sessionId clean =>
    have read := read?_of_decode? (by simp [kind]) read
    simp only [kind, Kind.read?, Option.map_eq_some_iff, Message.data.injEq, exists_eq_right] at read
    rw [Data.ofArgs?.eq_def] at read
    split at read
    · simp at read
    · next args =>
      simp only [Option.some.injEq, Data.mk.injEq, Content.binary.injEq] at read
      rw [← read.2.2]
      exact given (.blob _) (by simp [args])
    · simp at read

/-- A frame was read with a text for its application, or without one. -/
theorem application_of_decode? {frame : Frame} {o : Osc.Message} {acceptUnknown : Bool}
    (read : Registry.defaults.decode? o acceptUnknown = some (.frame frame))
    (given : Osc.AllGiven o.args) : '\x00' ∉ frame.application.toList := by
  have read := read?_of_decode? (by simp [kind]) read
  simp only [kind, Kind.read?, Option.map_eq_some_iff, Message.frame.injEq, exists_eq_right] at read
  rw [Frame.ofArgs?.eq_def] at read
  split at read
  · simp [← Option.some.inj read]
  · next application _ _ _ args =>
    rw [← Option.some.inj read]
    exact given (.string application) (by simp [args])
  · simp at read

end Message

/-! ## Lost elements -/

/-- No reader gets the message out of its element, wherever this element stands. -/
def Message.Lost (m : Message) : Prop :=
  ∀ depth offset, 4 ∣ offset → ∃ e, Osc.Packet.read depth
    ⟨offset, m.toOsc.encode.take (m.toOsc.encode.length % 2 ^ 32)⟩ = .error e

/-- An element that does not fit its length is cut short. -/
theorem Message.Lost.of_oversize {m : Message} {address : String}
    (named : m.kind.address? = some address) (exact : m.toOsc.Exact)
    (large : ¬ m.toOsc.encode.length < 2 ^ 32) : m.Lost := by
  intro depth offset aligned
  have cut : m.toOsc.encode.length % 2 ^ 32 < m.toOsc.encode.length :=
    Nat.lt_of_lt_of_le (Nat.mod_lt _ (by decide)) (Nat.le_of_not_lt large)
  obtain ⟨clean, slash⟩ := m.clean named
  exact Osc.Packet.read_fails clean slash aligned (exact.not_cut cut aligned) depth

/-- An element with an aligned blob ends in front of what its reader wants to skip. -/
theorem Message.CarriesBytes.lost {bytes : List UInt8} {m : Message} (carries : m.CarriesBytes bytes)
    (aligned : 4 ∣ bytes.length) (small : bytes.length < 2 ^ 32)
    (fits : m.toOsc.encode.length < 2 ^ 32) : m.Lost := by
  intro depth offset start
  obtain ⟨front, args, plain⟩ := carries.args
  obtain ⟨address, named, _⟩ := carries.catalog
  obtain ⟨clean, slash⟩ := m.clean named
  rw [Nat.mod_eq_of_lt fits]
  refine Osc.Packet.read_fails clean slash start (fun m' after read => ?_) depth
  have failed := Osc.Message.whole_fails (m := m.toOsc) clean aligned small args plain start
  rw [List.take_length, failed] at read
  simp at read

/-- Behind a lost message nothing of a bundle arrives. -/
theorem Bundle.decodePacket_lost {good : List Message} {bad : Message}
    (carried : ∀ m ∈ good, m.Carried) (fits : ∀ m ∈ good, m.toOsc.encode.length < 2 ^ 32)
    (lost : bad.Lost) (later : List Message) :
    decodePacket (Bundle.encode ⟨good ++ bad :: later⟩) =
      .ok (.bundle (Bundle.time ⟨good ++ bad :: later⟩) ((good.map Message.toOsc).map .message)) := by
  have portable : ∀ o ∈ good.map Message.toOsc, o.Portable := by
    rintro _ mem
    obtain ⟨m, inside, rfl⟩ := List.mem_map.mp mem
    exact (carried m inside).portable
  have small : ∀ o ∈ good.map Message.toOsc, o.encode.length < 2 ^ 32 := by
    rintro _ mem
    obtain ⟨m, inside, rfl⟩ := List.mem_map.mp mem
    exact fits m inside
  rw [decodePacket, encode, toPacket_eq, List.map_append, List.map_cons,
    Osc.Packet.decode_encode_cut portable small lost (later.map Message.toOsc)]

/-- The alive list is behind the lost message, so no bundle is completed. -/
theorem Client.process_lost {good : List Message} {bad : Message}
    (carried : ∀ m ∈ good, m.Carried) (fits : ∀ m ∈ good, m.toOsc.encode.length < 2 ^ 32)
    (plain : ∀ m ∈ good, ∃ address, m.kind.address? = some address ∧ m.isAlive = false)
    (lost : bad.Lost) (later : List Message) (acceptUnknown : Bool) :
    ∃ c, ({ receiver := { acceptUnknown } } : Client).process
      (Bundle.encode ⟨good ++ bad :: later⟩) = (.ok 0, c) := by
  have decoded := Bundle.decodePacket_lost carried fits lost later
  have noAlive : ∀ m ∈ Registry.defaults.decodeAll (.bundle (Bundle.time ⟨good ++ bad :: later⟩)
      ((good.map Message.toOsc).map .message)) acceptUnknown, m.isAlive = false := by
    intro m mem
    rw [Registry.decodeAll, Osc.Packet.messages_bundle] at mem
    obtain ⟨o, sent, read⟩ := List.mem_filterMap.mp mem
    obtain ⟨g, inside, rfl⟩ := List.mem_map.mp sent
    obtain ⟨address, named, other⟩ := plain g inside
    rwa [Message.isAlive, Registry.kind_of_decode? named read]
  obtain ⟨c, processed, _⟩ := (Client.process_fresh { acceptUnknown } decoded []).mpr
    (Assembly.feedAll_open _ noAlive).1
  exact ⟨c, processed⟩

/-! ## Acceptance -/

theorem exact_frame {frame : Frame} (clean : '\x00' ∉ frame.application.toList) :
    (Message.frame frame).toOsc.Exact :=
  (Message.Carried.frame clean).exact fun arg mem => (Message.frame_args clean arg mem).2

theorem exact_alive (ids : List UInt32) : (Message.alive ids).toOsc.Exact :=
  (Message.Carried.alive ids).exact fun arg mem => (Message.alive_args ids arg mem).2

section

variable {bytes : List UInt8} {frame : Frame} {m : Message}

/-- The messages of an accepted bundle were read from arguments. -/
theorem Client.read_of_accepted {acceptUnknown : Bool} {packet : Datagram} {c : Client} {b : Bundle}
    (accepted : ({ receiver := { acceptUnknown } } : Client).process packet = (.ok 1, c))
    (shown : c.bundles = [b]) {m : Message} (inside : m ∈ b.messages) :
    ∃ o, Registry.defaults.decode? o acceptUnknown = some m ∧ Osc.AllGiven o.args := by
  cases decoded : Osc.Packet.decode packet with
  | error e =>
    have undecoded : decodePacket packet = .error (.decode e) := by rw [decodePacket, decoded]
    simp [Client.process_error undecoded] at accepted
  | ok content =>
    have opened : decodePacket packet = .ok content := by rw [decodePacket, decoded]
    have completed := (Client.process_fresh { acceptUnknown } opened [b]).mp ⟨c, accepted, shown⟩
    have fed := Assembly.mem_of_feedAll (completed ▸ List.mem_singleton_self b) inside
    obtain ⟨o, sent, read⟩ := List.mem_filterMap.mp fed
    exact ⟨o, read, Osc.Packet.given_of_decode decoded o sent⟩

theorem payload_delivered (numbered : frame.id ≠ 0) (clean : '\x00' ∉ frame.application.toList)
    (carries : m.CarriesBytes bytes) (ids : List UInt32) (acceptUnknown : Bool)
    (ragged : ¬ 4 ∣ bytes.length)
    (fits : ∀ m' ∈ [.frame frame, m, .alive ids], m'.toOsc.encode.length < 2 ^ 32) :
    ∃ c, ({ receiver := { acceptUnknown } } : Client).process
        (Bundle.encode ⟨[.frame frame, m, .alive ids]⟩) = (.ok 1, c) ∧
      c.bundles = [⟨[.frame frame, m, .alive ids]⟩] := by
  obtain ⟨address, named, notFrame, notAlive⟩ := carries.catalog
  have carried : ∀ m' ∈ [.frame frame, m, .alive ids], m'.Carried := by
    simp only [List.forall_mem_cons]
    exact ⟨.frame clean, carries.carried ragged, .alive ids, by simp⟩
  have reachable : ∀ m' ∈ [.frame frame, m, .alive ids], m'.Reachable := by
    simp only [List.forall_mem_cons]
    exact ⟨trivial, carries.reachable, trivial, by simp⟩
  have wanted : ∀ m' ∈ [.frame frame, m, .alive ids], m'.kind = .generic → acceptUnknown = true := by
    simp only [List.forall_mem_cons]
    refine ⟨by simp [Message.kind], ?_, by simp [Message.kind], by simp⟩
    intro generic
    simp [generic, Kind.address?] at named
  have arrived := Bundle.decodeAll_toPacket reachable carried fits wanted
  have same : Registry.defaults.decodeAll (Bundle.toPacket ⟨[.frame frame, m, .alive ids]⟩)
      acceptUnknown = .frame frame :: [m] ++ [.alive ids] := by
    simp only [List.forall₂_cons_left_iff, List.forall₂_nil_left_iff] at arrived
    obtain ⟨_, _, first, ⟨_, _, second, ⟨_, _, third, rfl, rfl⟩, rfl⟩, all⟩ := arrived
    rw [all, first.eq_frame, carries.eq_of_same second, third.eq_alive]
    rfl
  refine (Client.process_fresh { acceptUnknown } (Bundle.decodePacket_encode carried fits)
    [⟨[.frame frame, m, .alive ids]⟩]).mpr ?_
  rw [same, Assembly.feedAll_framed _ _ _ (by simp [notFrame, notAlive]),
    Assembly.close_of_newer rfl numbered (by simp [Assembly.isNewer])]
  rfl

/-- A payload costs the frame exactly if its length is a multiple of four, as long as the wire can
carry the frame itself and no element is too large for its length word. -/
theorem payload_accepted_iff (numbered : frame.id ≠ 0) (carries : m.CarriesBytes bytes)
    (ids : List UInt32) (acceptUnknown : Bool) :
    (∃ c, ({ receiver := { acceptUnknown } } : Client).process
        (Bundle.encode ⟨[.frame frame, m, .alive ids]⟩) = (.ok 1, c) ∧
      c.bundles = [⟨[.frame frame, m, .alive ids]⟩]) ↔
      ¬ 4 ∣ bytes.length ∧ '\x00' ∉ frame.application.toList ∧
        ∀ m' ∈ [.frame frame, m, .alive ids], m'.toOsc.encode.length < 2 ^ 32 := by
  constructor
  · rintro ⟨c, accepted, shown⟩
    obtain ⟨address, named, notFrame, notAlive⟩ := carries.catalog
    obtain ⟨_, frameRead, frameGiven⟩ :=
      Client.read_of_accepted accepted shown (List.mem_cons_self ..)
    obtain ⟨_, payloadRead, payloadGiven⟩ :=
      Client.read_of_accepted (m := m) accepted shown (by simp)
    have clean := Message.application_of_decode? frameRead frameGiven
    have small := carries.small_of_decode? payloadRead payloadGiven
    -- Every message in front of a lost one has to be sound, so they are settled in order.
    have notLost (good : List Message) {bad : Message} {later : List Message}
        (split : [.frame frame, m, .alive ids] = good ++ bad :: later)
        (sound : ∀ g ∈ good, g.Carried ∧ g.toOsc.encode.length < 2 ^ 32 ∧
          ∃ address, g.kind.address? = some address ∧ g.isAlive = false) : ¬ bad.Lost := by
      intro lost
      obtain ⟨c', refused⟩ := Client.process_lost (fun g mem => (sound g mem).1)
        (fun g mem => (sound g mem).2.1) (fun g mem => (sound g mem).2.2) lost later acceptUnknown
      rw [split, refused] at accepted
      simp at accepted
    have frameFits : (Message.frame frame).toOsc.encode.length < 2 ^ 32 := by
      by_contra large
      exact notLost [] rfl (by simp) (.of_oversize rfl (exact_frame clean) large)
    have frameSound : (Message.frame frame).Carried ∧
        (Message.frame frame).toOsc.encode.length < 2 ^ 32 ∧
        ∃ address, (Message.frame frame).kind.address? = some address ∧
          (Message.frame frame).isAlive = false :=
      ⟨.frame clean, frameFits, _, rfl, rfl⟩
    have fits : m.toOsc.encode.length < 2 ^ 32 := by
      by_contra large
      exact notLost [.frame frame] rfl (List.forall_mem_singleton.mpr frameSound)
        (.of_oversize named (carries.exact small) large)
    have ragged : ¬ 4 ∣ bytes.length := fun aligned =>
      notLost [.frame frame] rfl (List.forall_mem_singleton.mpr frameSound)
        (carries.lost aligned small fits)
    have aliveFits : (Message.alive ids).toOsc.encode.length < 2 ^ 32 := by
      by_contra large
      refine notLost [.frame frame, m] rfl ?_ (.of_oversize rfl (exact_alive ids) large)
      exact List.forall_mem_cons.mpr ⟨frameSound, List.forall_mem_singleton.mpr
        ⟨carries.carried ragged, fits, address, named, notAlive⟩⟩
    refine ⟨ragged, clean, ?_⟩
    simp only [List.forall_mem_cons]
    exact ⟨frameFits, fits, aliveFits, by simp⟩
  · rintro ⟨ragged, clean, fits⟩
    exact payload_delivered numbered clean carries ids acceptUnknown ragged fits

/-- One byte is a payload that arrives. -/
theorem payload_accepted_one_byte :
    (1 : UInt32) ≠ 0 ∧ ∃ c, ({} : Client).process (Bundle.encode
        ⟨[.frame { id := 1 }, .data ⟨7, "text/plain", .binary [0]⟩, .alive [7]]⟩) = (.ok 1, c) ∧
      c.bundles = [⟨[.frame { id := 1 }, .data ⟨7, "text/plain", .binary [0]⟩, .alive [7]]⟩] :=
  have numbered : ({ id := 1 } : Frame).id ≠ 0 := by decide
  ⟨numbered, (payload_accepted_iff numbered (.data 7 (by decide)) [7] false).mpr
    ⟨by decide, by decide, by decide +kernel⟩⟩

/-- No byte is one that does not: the packet completes no bundle. -/
theorem payload_empty_lost :
    (({} : Client).process (Bundle.encode
      ⟨[.frame { id := 1 }, .data ⟨7, "text/plain", .binary []⟩, .alive [7]]⟩)).1 = .ok 0 := by
  decide +kernel

end

end Tangible
