import Tangible.Network.Client

/-!
# What a client accepts

The messages of a frame, taken in one after the other, complete exactly the bundle that they form
(`Assembly.feedAll_framed`), and it is accepted if its frame is newer than the last one
(`Assembly.close_of_newer`). Nothing is completed without an alive list (`Assembly.feedAll_open`),
and the accepted bundles are stretches of the messages that were fed, one behind the other
(`Assembly.feedAll_runs`).

A client shows the bundles that it accepted: `Client.process_eq` for one packet and
`Client.load_eq` for a load without listeners.
-/

namespace Tangible

namespace Assembly

variable {a : Assembly}

theorem close_opened (a : Assembly) (opened : Option Bundle) (b : Bundle) :
    close { a with opened } b = a.close b := by
  simp only [close]

theorem close_of_newer {b : Bundle} {frame : Frame} (first : b.frame? = some frame)
    (numbered : frame.id ≠ 0) (newer : isNewer frame.id a.lastFrameId) :
    a.close b = (some b, ⟨none, frame.id⟩) := by
  simp [close, first, numbered, newer]

/-- Messages between a frame and an alive list pile up behind the frame. -/
theorem feedAll_body (b : Bundle) {body : List Message}
    (plain : ∀ m ∈ body, m.isFrame = false ∧ m.isAlive = false) :
    feedAll { a with opened := some b } body =
      ([], { a with opened := some ⟨b.messages ++ body⟩ }) := by
  induction body generalizing b with
  | nil => simp
  | cons m body ih =>
    rw [List.forall_mem_cons] at plain
    have fed : feed { a with opened := some b } m =
        (none, { a with opened := some (b.push m) }) := by
      simp [feed, plain.1]
    rw [feedAll_cons, fed, ih (b.push m) plain.2]
    simp [Bundle.push]

/-- A frame, messages of other kinds and an alive list are offered as one bundle. -/
theorem feedAll_framed (a : Assembly) (frame : Frame) {body : List Message} (ids : List UInt32)
    (plain : ∀ m ∈ body, m.isFrame = false ∧ m.isAlive = false) :
    a.feedAll (.frame frame :: body ++ [.alive ids]) =
      ((a.close ⟨.frame frame :: body ++ [.alive ids]⟩).1.toList,
        (a.close ⟨.frame frame :: body ++ [.alive ids]⟩).2) := by
  have opens : a.feed (.frame frame) = (none, { a with opened := some ⟨[.frame frame]⟩ }) := by
    simp [feed, Message.isFrame, Message.kind]
  have closes (b : Bundle) : feed { a with opened := some b } (.alive ids) =
      a.close (b.push (.alive ids)) := by
    simp [feed, Message.isFrame, Message.isAlive, Message.kind, close_opened]
  rw [List.cons_append, feedAll_cons, opens, feedAll_append, feedAll_body _ plain, feedAll_cons,
    closes]
  simp [Bundle.push]

/-- The messages that wait for an alive list. -/
def held (a : Assembly) : List Message := (a.opened.map Bundle.messages).getD []

theorem held_of_opened {b : Bundle} (opened : a.opened = some b) : a.held = b.messages := by
  simp [held, opened]

/-- A bundle is accepted as it is, and none is open behind it. -/
theorem close_step (a : Assembly) (b : Bundle) :
    (∀ b' ∈ (a.close b).1, b' = b) ∧ (a.close b).2.opened = none := by
  simp only [close]
  split
  · simp
  · split
    · simp [eq_comm]
    · split <;> simp [eq_comm]

/-- What a message does to an assembly. -/
inductive Feeds (a : Assembly) (m : Message) : Option Bundle × Assembly → Prop where
  /-- A frame opens a bundle in the stead of the one that is open. -/
  | opens : m.isFrame → Feeds a m (none, { a with opened := some ⟨[m]⟩ })
  | drops : m.isFrame = false → a.opened = none → Feeds a m (none, a)
  | pushes {b : Bundle} : a.opened = some b → m.isFrame = false → m.isAlive = false →
      Feeds a m (none, { a with opened := some (b.push m) })
  | closes {b : Bundle} : a.opened = some b → m.isFrame = false → m.isAlive →
      Feeds a m (a.close (b.push m))

theorem feeds (a : Assembly) (m : Message) : a.Feeds m (a.feed m) := by
  rw [feed]
  by_cases frame : m.isFrame
  · rw [if_pos frame]
    exact .opens frame
  · rw [if_neg frame]
    rw [Bool.not_eq_true] at frame
    cases opened : a.opened with
    | none => exact .drops frame opened
    | some b =>
      by_cases alive : m.isAlive
      · simpa [alive] using Feeds.closes opened frame alive
      · simpa [alive] using Feeds.pushes opened frame (Bool.not_eq_true _ ▸ alive)

/-- Without an alive list no bundle is completed. -/
theorem feedAll_open (a : Assembly) {ms : List Message} (noAlive : ∀ m ∈ ms, m.isAlive = false) :
    (a.feedAll ms).1 = [] ∧ (a.feedAll ms).2.lastFrameId = a.lastFrameId := by
  induction ms generalizing a with
  | nil => simp
  | cons m ms ih =>
    rw [List.forall_mem_cons] at noAlive
    have waits : (a.feed m).1 = none ∧ (a.feed m).2.lastFrameId = a.lastFrameId := by
      have step := a.feeds m
      generalize a.feed m = result at *
      cases step with
      | closes _ _ alive => simp [noAlive.1] at alive
      | _ => exact ⟨rfl, rfl⟩
    obtain ⟨none, last⟩ := ih (a.feed m).2 noAlive.2
    rw [feedAll_cons, waits.1, none, last, waits.2]
    exact ⟨rfl, rfl⟩

/-- The bundles are stretches of the messages, one behind the other. Messages between them are left
out. -/
inductive Runs : List Message → List Bundle → Prop where
  | nil (skipped : List Message) : Runs skipped []
  | cons (skipped : List Message) (b : Bundle) {ms : List Message} {bs : List Bundle} :
      Runs ms bs → Runs (skipped ++ b.messages ++ ms) (b :: bs)

namespace Runs

variable {ms ms' : List Message} {bs bs' : List Bundle}

theorem skip (runs : Runs ms bs) (skipped : List Message) : Runs (skipped ++ ms) bs := by
  cases runs with
  | nil ms => exact .nil _
  | cons before b behind => simpa using cons (skipped ++ before) b behind

theorem append (runs : Runs ms bs) (later : Runs ms' bs') : Runs (ms ++ ms') (bs ++ bs') := by
  induction runs with
  | nil skipped => exact later.skip skipped
  | cons skipped b _ ih => simpa using cons skipped b ih

theorem subset (runs : Runs ms bs) {b : Bundle} (mem : b ∈ bs) : b.messages ⊆ ms := by
  induction runs with
  | nil => exact absurd mem List.not_mem_nil
  | cons skipped first _ ih =>
    rcases List.mem_cons.mp mem with rfl | later
    · exact List.subset_append_of_subset_left _ (List.subset_append_right ..)
    · exact List.subset_append_of_subset_right _ (ih later)

end Runs

theorem feed_runs (a : Assembly) (m : Message) :
    ∃ before, a.held ++ [m] = before ++ (a.feed m).2.held ∧ Runs before (a.feed m).1.toList := by
  have step := a.feeds m
  generalize a.feed m = result at *
  cases step with
  | opens => exact ⟨a.held, rfl, .nil _⟩
  | drops _ shut => exact ⟨[m], by simp [held, shut], .nil _⟩
  | pushes opened =>
    refine ⟨[], ?_, .nil _⟩
    rw [held_of_opened opened]
    rfl
  | @closes b opened =>
    obtain ⟨same, shut⟩ := a.close_step (b.push m)
    refine ⟨a.held ++ [m], by simp [held, shut], ?_⟩
    cases accepted : (a.close (b.push m)).1 with
    | none => exact .nil _
    | some b' =>
      rw [same b' accepted, held_of_opened opened]
      simpa [Bundle.push] using Runs.cons [] (b.push m) (.nil [])

/-- The accepted bundles are runs of what was fed, and what is held is the end of it. -/
theorem feedAll_runs (a : Assembly) (ms : List Message) :
    ∃ before, a.held ++ ms = before ++ (a.feedAll ms).2.held ∧ Runs before (a.feedAll ms).1 := by
  induction ms generalizing a with
  | nil => exact ⟨[], by simp, .nil []⟩
  | cons m ms ih =>
    obtain ⟨now, split, runs⟩ := a.feed_runs m
    obtain ⟨later, split', runs'⟩ := ih (a.feed m).2
    refine ⟨now ++ later, ?_, runs.append runs'⟩
    calc a.held ++ m :: ms = a.held ++ [m] ++ ms := by simp
      _ = now ++ ((a.feed m).2.held ++ ms) := by rw [split, List.append_assoc]
      _ = now ++ later ++ (a.feedAll (m :: ms)).2.held := by
        rw [split', List.append_assoc, feedAll_cons]

/-- The messages of an accepted bundle were fed, or they were held before. -/
theorem mem_of_feedAll {ms : List Message} {b : Bundle} (accepted : b ∈ (a.feedAll ms).1) :
    b.messages ⊆ a.held ++ ms := by
  obtain ⟨before, split, runs⟩ := a.feedAll_runs ms
  rw [split]
  exact List.subset_append_of_subset_left _ (runs.subset accepted)

end Assembly

namespace Receiver

/-- The messages that packets bring. Packets that cannot be decoded are passed over. -/
def heard (r : Receiver) (packets : List Datagram) : List Message :=
  packets.flatMap fun packet => (r.messages? packet).toOption.getD []

theorem heard_cons_error {r : Receiver} {packet : Datagram} {e : Error}
    (undecoded : r.messages? packet = .error e) (rest : List Datagram) :
    r.heard (packet :: rest) = r.heard rest := by
  rw [heard, List.flatMap_cons, undecoded]
  rfl

theorem heard_cons_ok {r : Receiver} {packet : Datagram} {messages : List Message}
    (decoded : r.messages? packet = .ok messages) (rest : List Datagram) :
    r.heard (packet :: rest) = messages ++ r.heard rest := by
  rw [heard, List.flatMap_cons, decoded]
  rfl

theorem messages?_of_decoded {r : Receiver} {packet : Datagram} {content : Osc.Packet}
    (decoded : decodePacket packet = .ok content) :
    r.messages? packet = .ok (r.registry.decodeAll content r.acceptUnknown) := by
  rw [messages?, decoded]
  rfl

theorem messages?_eq_error_iff {r : Receiver} {packet : Datagram} {e : Error} :
    r.messages? packet = .error e ↔ decodePacket packet = .error e := by
  rw [messages?]
  cases decodePacket packet <;> simp [Except.map]

/-- Where the assembly stands does not matter for what is decoded. -/
theorem heard_assembly (r : Receiver) (assembly : Assembly) (packets : List Datagram) :
    heard { r with assembly } packets = r.heard packets := rfl

/-- Packets are taken from the front of the queue, and what they bring is accepted. -/
theorem gather_taken (r : Receiver) (limit : Option Nat) (packets : List Datagram) :
    ∃ taken, packets = taken ++ (r.gather limit packets).inbox ∧
      (r.gather limit packets).bundles = (r.assembly.feedAll (r.heard taken)).1 ∧
      (r.gather limit packets).receiver =
        { r with assembly := (r.assembly.feedAll (r.heard taken)).2 } := by
  induction packets generalizing r limit with
  | nil => exact ⟨[], rfl, rfl, rfl⟩
  | cons packet rest ih =>
    rw [gather]
    split
    · exact ⟨[], rfl, rfl, rfl⟩
    · rw [receive]
      cases decoded : r.messages? packet with
      | error e =>
        obtain ⟨taken, split, bundles, receiver⟩ := ih r limit
        refine ⟨packet :: taken, congrArg (packet :: ·) split, ?_⟩
        rw [heard_cons_error decoded]
        exact ⟨bundles, receiver⟩
      | ok messages =>
        obtain ⟨taken, split, bundles, receiver⟩ :=
          ih { r with assembly := (r.assembly.feedAll messages).2 }
            (limit.map (· - (r.assembly.feedAll messages).1.length))
        rw [heard_assembly] at bundles receiver
        refine ⟨packet :: taken, congrArg (packet :: ·) split, ?_⟩
        rw [heard_cons_ok decoded, Assembly.feedAll_append]
        exact ⟨congrArg ((r.assembly.feedAll messages).1 ++ ·) bundles, receiver⟩

theorem gather_none_inbox (r : Receiver) (packets : List Datagram) :
    (r.gather none packets).inbox = [] := by
  induction packets generalizing r with
  | nil => rfl
  | cons packet rest ih =>
    rw [gather, if_neg (by simp)]
    obtain ⟨result, behind⟩ := r.receive packet
    cases result with
    | error e => exact ih behind
    | ok bundles => exact ih behind

/-- A queue that is emptied brings the bundles that its messages complete. -/
theorem gather_all (r : Receiver) (packets : List Datagram) :
    r.gather none packets =
      ⟨(r.assembly.feedAll (r.heard packets)).1, [],
        { r with assembly := (r.assembly.feedAll (r.heard packets)).2 }⟩ := by
  obtain ⟨taken, split, bundles, receiver⟩ := r.gather_taken none packets
  have emptied := r.gather_none_inbox packets
  rw [emptied, List.append_nil] at split
  rw [split, ← bundles, ← receiver, ← split, ← emptied]

end Receiver

/-! ## Stacks -/

namespace Store

theorem addAll_append (s : Store) (bs cs : List Bundle) :
    s.addAll (bs ++ cs) =
      ((s.addAll bs).1 ++ ((s.addAll bs).2.addAll cs).1, ((s.addAll bs).2.addAll cs).2) := by
  induction bs generalizing s with
  | nil => rfl
  | cons b bs ih => simp only [List.cons_append, addAll, ih]

theorem bundles_addAll (s : Store) (bs : List Bundle) :
    (s.addAll bs).2.bundles = s.bundles ++ bs := by
  induction bs generalizing s with
  | nil => simp [addAll]
  | cons b bs ih => simp [addAll, add, ih]

/-- The new cells hold the bundles that were added, in order. -/
theorem map_read_addAll (s : Store) (bs : List Bundle) :
    (s.addAll bs).1.map (s.addAll bs).2.read = bs := by
  induction bs generalizing s with
  | nil => rfl
  | cons b bs ih =>
    have rest := ih ⟨s.bundles ++ [b]⟩
    have all := bundles_addAll ⟨s.bundles ++ [b]⟩ bs
    simp only [addAll, add, List.map_cons, rest, List.cons.injEq, and_true]
    simp [read, all]

end Store

namespace Client

variable {c : Client}

theorem bundles_pushAll (empty : c.stack = []) (bs : List Bundle) :
    (c.pushAll bs).bundles = bs := by
  have read := c.chain.store.map_read_addAll bs
  simpa [pushAll, bundles, Chain.bundles, empty] using read

theorem pushAll_nil (c : Client) : c.pushAll [] = c := by
  simp [pushAll, Store.addAll]

theorem pushAll_append (c : Client) (bs cs : List Bundle) :
    (c.pushAll bs).pushAll cs = c.pushAll (bs ++ cs) := by
  simp only [pushAll, Store.addAll_append, List.append_assoc]

/-- The client that has heard messages. -/
def hearing (c : Client) (ms : List Message) : Client :=
  { c with receiver.assembly := (c.receiver.assembly.feedAll ms).2 }.pushAll
    (c.receiver.assembly.feedAll ms).1

theorem hearing_nil (c : Client) : c.hearing [] = c := pushAll_nil c

theorem hearing_append (c : Client) (ms rest : List Message) :
    (c.hearing ms).hearing rest = c.hearing (ms ++ rest) := by
  have whole := c.receiver.assembly.feedAll_append ms rest
  have twice := pushAll_append
    { c with receiver.assembly := (c.receiver.assembly.feedAll (ms ++ rest)).2 }
    (c.receiver.assembly.feedAll ms).1 ((c.receiver.assembly.feedAll ms).2.feedAll rest).1
  rw [whole] at twice
  simp only [hearing, whole]
  exact twice

/-- One packet brings the bundles that its messages complete. -/
theorem process_eq {packet : Datagram} {messages : List Message}
    (decoded : c.receiver.messages? packet = .ok messages) :
    c.process packet =
      (.ok (c.receiver.assembly.feedAll messages).1.length, c.hearing messages) := by
  rw [process, Receiver.receive, decoded]
  rfl

/-- A packet in error changes nothing. -/
theorem process_error {packet : Datagram} {e : Error} (undecoded : decodePacket packet = .error e) :
    c.process packet = (.error e, c) := by
  rw [process, Receiver.receive, Receiver.messages?_eq_error_iff.mpr undecoded]

theorem process_error_iff {packet : Datagram} {e : Error} :
    (c.process packet).1 = .error e ↔ decodePacket packet = .error e := by
  constructor
  · intro failed
    cases decoded : decodePacket packet with
    | error e' =>
      rw [process_error decoded] at failed
      rw [Except.error.inj failed]
    | ok content =>
      rw [process_eq (Receiver.messages?_of_decoded decoded)] at failed
      cases failed
  · exact fun undecoded => congrArg Prod.fst (process_error undecoded)

/-- Processes packets one after the other and counts the bundles that they complete. -/
def processAll (c : Client) : List Datagram → Nat × Client
  | [] => (0, c)
  | packet :: rest =>
    let (result, c) := c.process packet
    let (later, c) := c.processAll rest
    (result.toOption.getD 0 + later, c)

/-- Where a stream of messages is cut into packets does not matter. -/
theorem processAll_eq (c : Client) (packets : List Datagram) :
    c.processAll packets =
      ((c.receiver.assembly.feedAll (c.receiver.heard packets)).1.length,
        c.hearing (c.receiver.heard packets)) := by
  induction packets generalizing c with
  | nil => exact Prod.ext rfl (hearing_nil c).symm
  | cons packet rest ih =>
    rw [processAll]
    cases decoded : c.receiver.messages? packet with
    | error e =>
      rw [process_error (Receiver.messages?_eq_error_iff.mp decoded),
        Receiver.heard_cons_error decoded]
      simp only [ih, Except.toOption, Option.getD_none, Nat.zero_add]
    | ok messages =>
      have same : (c.hearing messages).receiver.heard rest = c.receiver.heard rest := rfl
      rw [process_eq decoded, Receiver.heard_cons_ok decoded, Assembly.feedAll_append,
        List.length_append, ← hearing_append, ← same]
      simp only [ih]
      rfl

theorem notifyAll_eq (unheard : c.listeners.members = []) : c.notifyAll = (.ok (), c) := by
  simp [notifyAll, Chain.notifyAll, unheard, Chain.tellEach]

/-- A load without listeners leaves the gathered bundles on the stack. -/
theorem load_eq (unheard : c.listeners.members = []) (count : Nat) :
    (c.load count).2 =
      let gathered := c.receiver.gather (if count = 0 then none else some count) c.inbox
      { c with receiver := gathered.receiver, inbox := gathered.inbox }.purge.pushAll
        gathered.bundles := by
  have quiet (receiver : Receiver) (inbox : List Datagram) (bs : List Bundle) :
      ({ c with receiver, inbox }.purge.pushAll bs).notifyAll =
        (.ok (), { c with receiver, inbox }.purge.pushAll bs) :=
    notifyAll_eq unheard
  simp only [load, quiet, apply_ite Prod.snd, ite_self]

/-- A fresh client shows what its first packet brings. -/
theorem process_fresh (r : Receiver) {packet : Datagram} {content : Osc.Packet}
    (decoded : decodePacket packet = .ok content) (bs : List Bundle) :
    (∃ c, ({ receiver := r } : Client).process packet = (.ok bs.length, c) ∧ c.bundles = bs) ↔
      (r.assembly.feedAll (r.registry.decodeAll content r.acceptUnknown)).1 = bs := by
  rw [process_eq (Receiver.messages?_of_decoded decoded)]
  constructor
  · rintro ⟨c, processed, rfl⟩
    obtain ⟨_, rfl⟩ := Prod.mk.inj processed
    exact (bundles_pushAll rfl _).symm
  · rintro rfl
    exact ⟨_, rfl, bundles_pushAll rfl _⟩

end Client

end Tangible
