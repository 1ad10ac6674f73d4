import Tangible.Proofs.Bundle.RoundTrip
import Tangible.Proofs.Lists
import Tangible.Proofs.Network.Assembly
import Tangible.Proofs.Network.Sending

/-!
# Delivery

A server and a client at the two ends of a wire that keeps packets in order. Whatever they do in
between, the client loads the bundles that the server sent: each once, in order, and with the same
messages (`Exchange.delivered`).

The frames that wait on the wire are numbered without a gap from the last one that was accepted
(`Numbered`). The next number is always newer, also where the counter wraps (`isNewer_next`), so a
client accepts every packet that it takes from the wire (`Receiver.receive_next`), and a load takes
as many as it was asked for (`Receiver.gather_numbered`).
-/

namespace Tangible

/-- Equal message by message. -/
def Bundle.Same (b b' : Bundle) : Prop := List.Forall₂ Message.Same b.messages b'.messages

theorem Bundle.Same.eq {b b' : Bundle} (same : b.Same b')
    (rigid : ∀ m ∈ b.messages, ∀ m', m.Same m' → m' = m) : b' = b :=
  congrArg Bundle.mk (eq_of_forall₂ rigid same)

/-- What a server sends with the given frame id, as far as the wire carries it. -/
structure Bundle.Sound (id : UInt32) (b : Bundle) : Prop where
  framed : ∃ frame body ids, b.messages = .frame frame :: body ++ [.alive ids] ∧ frame.id = id ∧
    ∀ m ∈ body, m.isFrame = false ∧ m.isAlive = false
  reachable : ∀ m ∈ b.messages, m.Reachable
  carried : ∀ m ∈ b.messages, m.Carried

/-- Bundles with the numbers from `last` on, up to `current`. -/
def Numbered (current : FrameCounter) : FrameCounter → List Bundle → Prop
  | last, [] => last = current
  | last, b :: rest => b.Sound last.next ∧ Numbered current last.advance rest

theorem Numbered.concat {last current : FrameCounter} {bs : List Bundle}
    (numbered : Numbered current last bs) {b : Bundle} (sound : b.Sound current.next) :
    Numbered current.advance last (bs ++ [b]) := by
  induction bs generalizing last with
  | nil =>
    obtain rfl : last = current := numbered
    exact ⟨sound, rfl⟩
  | cons b' bs ih => exact ⟨numbered.1, ih numbered.2⟩

theorem FrameCounter.next_ne_zero (c : FrameCounter) : c.next ≠ 0 := by
  simp only [next]
  split
  · decide
  · assumption

/-- The next number is newer, also behind the greatest one. -/
theorem Assembly.isNewer_next (last : FrameCounter) : isNewer last.next last.current := by
  simp only [isNewer, FrameCounter.next]
  split
  · next wraps =>
    have greatest : last.current = 0xffffffff := by grind
    rw [greatest]
    decide
  · next inside =>
    have ahead : last.current + 1 - last.current = 1 := by grind
    rw [ahead]
    simp

/-! ## Receiving -/

/-- The alive list stays the last message, and the messages in front of it keep their kinds. -/
theorem Message.same_body {body ms : List Message} {ids : List UInt32}
    (plain : ∀ m ∈ body, m.isFrame = false ∧ m.isAlive = false)
    (all : List.Forall₂ Same (body ++ [.alive ids]) ms) :
    ∃ body', ms = body' ++ [.alive ids] ∧ ∀ m ∈ body', m.isFrame = false ∧ m.isAlive = false := by
  induction body generalizing ms with
  | nil =>
    obtain ⟨_, _, last, nothing, rfl⟩ := List.forall₂_cons_left_iff.mp all
    obtain rfl := List.forall₂_nil_left_iff.mp nothing
    exact ⟨[], by rw [last.eq_alive, List.nil_append], by simp⟩
  | cons m body ih =>
    rw [List.forall_mem_cons] at plain
    obtain ⟨m', _, first, rest, rfl⟩ := List.forall₂_cons_left_iff.mp all
    obtain ⟨body', rfl, plain'⟩ := ih plain.2 rest
    refine ⟨m' :: body', rfl, List.forall_mem_cons.mpr ⟨?_, plain'⟩⟩
    rw [isFrame, isAlive, first.kind]
    exact plain.1

namespace Receiver

/-- A receiver of all messages that waits for the frame behind the last one. -/
def ready (last : FrameCounter) : Receiver :=
  { acceptUnknown := true, assembly := { lastFrameId := last.current } }

theorem receive_next {last : FrameCounter} {b : Bundle} (sound : b.Sound last.next)
    (small : b.encode.length < 2 ^ 32) :
    ∃ b', (ready last).receive b.encode = (.ok [b'], ready last.advance) ∧ b.Same b' := by
  have fits : ∀ m ∈ b.messages, m.toOsc.encode.length < 2 ^ 32 :=
    fun m mem => Nat.lt_trans (Bundle.encode_toOsc_length_lt mem) small
  have arrived := Bundle.decodeAll_toPacket sound.reachable sound.carried fits fun _ _ _ => rfl
  have decoded : (ready last).messages? b.encode =
      .ok (Registry.defaults.decodeAll b.toPacket true) := by
    rw [messages?, Bundle.decodePacket_encode sound.carried fits]
    rfl
  obtain ⟨frame, body, ids, framed, numbered, plain⟩ := sound.framed
  -- messages keep their kinds on the way, so what arrives is framed like what was sent
  have split := arrived
  rw [framed, List.cons_append, List.forall₂_cons_left_iff] at split
  obtain ⟨_, _, first, behind, content⟩ := split
  obtain ⟨body', rfl, plain'⟩ := Message.same_body plain behind
  rw [first.eq_frame, ← List.cons_append] at content
  have newer : Assembly.isNewer frame.id last.current := numbered ▸ Assembly.isNewer_next last
  have closed := Assembly.close_of_newer (a := (ready last).assembly)
    (b := ⟨.frame frame :: body' ++ [.alive ids]⟩) rfl (numbered ▸ last.next_ne_zero) newer
  refine ⟨⟨.frame frame :: body' ++ [.alive ids]⟩, ?_, content ▸ arrived⟩
  rw [receive, decoded, content]
  simp only [Assembly.feedAll_framed _ _ _ plain', closed, numbered]
  rfl

/-- The packets of numbered bundles are accepted one after the other, as many as are wanted. -/
theorem gather_numbered {last current : FrameCounter} {waiting : List Bundle} (limit : Option Nat)
    (numbered : Numbered current last waiting) (small : ∀ b ∈ waiting, b.encode.length < 2 ^ 32) :
    ((ready last).gather limit (waiting.map Bundle.encode)).inbox =
        (waiting.drop (limit.getD waiting.length)).map Bundle.encode ∧
      List.Forall₂ Bundle.Same (waiting.take (limit.getD waiting.length))
        ((ready last).gather limit (waiting.map Bundle.encode)).bundles ∧
      ∃ now, ((ready last).gather limit (waiting.map Bundle.encode)).receiver = ready now ∧
        Numbered current now (waiting.drop (limit.getD waiting.length)) := by
  induction waiting generalizing limit last with
  | nil => simpa [gather] using ⟨last, rfl, numbered⟩
  | cons b rest ih =>
    rw [List.forall_mem_cons] at small
    obtain ⟨b', received, same⟩ := receive_next numbered.1 small.1
    by_cases full : limit = some 0
    -- either nothing more is wanted, or one packet brings one bundle and lowers the limit by one
    · subst full
      simpa [gather] using ⟨last, rfl, numbered⟩
    · have accepts : (ready last).gather limit ((b :: rest).map Bundle.encode) =
          let later := (ready last.advance).gather (limit.map (· - 1)) (rest.map Bundle.encode)
          { later with bundles := b' :: later.bundles } := by
        simp [gather, full, received]
      have wanted : limit.getD (b :: rest).length =
          (limit.map (· - 1)).getD rest.length + 1 := by
        cases limit with
        | none => rfl
        | some n =>
          have positive : n ≠ 0 := fun zero => full (congrArg some zero)
          simp only [Option.getD_some, Option.map_some]
          omega
      obtain ⟨inbox, bundles, now, receiver, behind⟩ :=
        ih (limit.map (· - 1)) numbered.2 small.2
      rw [accepts, wanted]
      exact ⟨inbox, .cons same bundles, now, receiver, behind⟩

end Receiver

/-! ## Sending -/

namespace Server

/-- Everything that the server may send is carried by the wire. -/
structure Fair (s : Server) : Prop extends Plain s where
  template : '\x00' ∉ s.template.application.toList
  reachable : ∀ m ∈ s.pending, m.Reachable
  carried : ∀ m ∈ s.pending, m.Carried

/-- A call that gives the server only what the wire carries. -/
def Call.Fair : Call → Prop
  | .append m => m.Reachable ∧ m.Carried
  | .template frame => '\x00' ∉ frame.application.toList
  | _ => True

variable {s : Server}

theorem fair_ofConfig {c : Config.Server} (clean : '\x00' ∉ c.sourceName.toList) :
    (ofConfig c).Fair :=
  ⟨plain_ofConfig c, clean, by simp [ofConfig], by simp [ofConfig]⟩

theorem Fair.push (fair : s.Fair) {m : Message} (body : m.isFrame = false ∧ m.isAlive = false)
    (reachable : m.Reachable) (carried : m.Carried) :
    Fair { s with pending := s.pending ++ [m] } :=
  ⟨fair.toPlain.push body, fair.template,
    by simpa [or_imp, forall_and] using ⟨fair.reachable, reachable⟩,
    by simpa [or_imp, forall_and] using ⟨fair.carried, carried⟩⟩

theorem Fair.call (fair : s.Fair) {c : Call} (given : c.Fair) : (s.call c).2.Fair := by
  have plain := fair.toPlain.call c
  cases c with
  | append m =>
    cases m with
    | frame frame => exact ⟨plain, given.2.application_clean, fair.reachable, fair.carried⟩
    | alive => exact fair
    | _ => exact fair.push ⟨rfl, rfl⟩ given.1 given.2
  | template => exact ⟨plain, given, fair.reachable, fair.carried⟩
  | sessions => exact ⟨plain, fair.template, fair.reachable, fair.carried⟩
  | paranoid => exact ⟨plain, fair.template, fair.reachable, fair.carried⟩
  | send now =>
    rw [fair.toPlain.call_send] at plain ⊢
    exact ⟨plain, fair.template, by simp [Server.sent], by simp [Server.sent]⟩

/-- What is prepared has the next number. -/
theorem Fair.sound (fair : s.Fair) (now : Timetag) : (s.prepare now).Sound s.frames.next := by
  refine ⟨⟨_, s.pending, _, rfl, rfl, fair.pending⟩, ?_, ?_⟩
  · simp only [prepare, List.cons_append, List.forall_mem_cons, List.forall_mem_append]
    exact ⟨trivial, fair.reachable, trivial, by simp⟩
  · simp only [prepare, List.cons_append, List.forall_mem_cons, List.forall_mem_append]
    exact ⟨.frame fair.template, fair.carried, .alive _, by simp⟩

end Server

/-! ## The two ends -/

/-- A server and a client at the two ends of a wire, with what they did so far. -/
structure Exchange where
  server : Server
  client : Client
  /-- The bundles that the sends returned, in order. -/
  sent : List Bundle := []
  /-- The stacks that the loads left, one behind the other. -/
  loaded : List Bundle := []

namespace Exchange

inductive Action where
  | call (c : Server.Call)
  | load (count : Nat)

def act (e : Exchange) : Action → Exchange
  | .call c =>
    match e.server.call c with
    | (some (.ok sent), server) =>
      { e with server, client := e.client.deliver sent.packet, sent := e.sent ++ [sent.bundle] }
    | (_, server) => { e with server }
  | .load count =>
    let client := (e.client.load count).2
    { e with client, loaded := e.loaded ++ client.bundles }

def run (e : Exchange) (actions : List Action) : Exchange :=
  actions.foldl act e

/-- A new server, and a new client that accepts unknown messages. -/
def fresh (c : Config.Server) : Exchange where
  server := .ofConfig c
  client := { receiver := { acceptUnknown := true } }

def Action.Fair : Action → Prop
  | .call c => c.Fair
  | .load _ => True

/-- What was sent is what was loaded and what waits. -/
structure InStep (e : Exchange) : Prop where
  server : e.server.Fair
  unheard : e.client.listeners.members = []
  delivered : ∃ consumed waiting last, e.sent = consumed ++ waiting ∧
    e.client.inbox = waiting.map Bundle.encode ∧ List.Forall₂ Bundle.Same consumed e.loaded ∧
    e.client.receiver = .ready last ∧ Numbered e.server.frames last waiting

theorem inStep_fresh {c : Config.Server} (clean : '\x00' ∉ c.sourceName.toList) :
    (fresh c).InStep :=
  ⟨Server.fair_ofConfig clean, rfl, [], [], {}, rfl, rfl, .nil, rfl, rfl⟩

variable {e : Exchange}

theorem act_send (plain : e.server.Plain) (now : Timetag) :
    e.act (.call (.send now)) =
      { e with
        server := e.server.sent
        client := e.client.deliver (e.server.prepare now).encode
        sent := e.sent ++ [e.server.prepare now] } := by
  rw [act, plain.call_send]

theorem InStep.send (inStep : e.InStep) (now : Timetag) : (e.act (.call (.send now))).InStep := by
  obtain ⟨consumed, waiting, last, sent, inbox, same, receiver, numbered⟩ := inStep.delivered
  have plain := inStep.server.toPlain
  have server : e.server.sent.Fair := by
    simpa only [plain.call_send] using inStep.server.call (c := .send now) trivial
  rw [act_send plain]
  refine ⟨server, inStep.unheard, consumed, waiting ++ [e.server.prepare now], last, ?_, ?_, same,
    receiver, numbered.concat (inStep.server.sound now)⟩
  · simp only [sent, List.append_assoc]
  · simp [Client.deliver, inbox]

theorem InStep.load (inStep : e.InStep) (small : ∀ b ∈ e.sent, b.encode.length < 2 ^ 32)
    (count : Nat) : (e.act (.load count)).InStep := by
  obtain ⟨consumed, waiting, last, sent, inbox, same, receiver, numbered⟩ := inStep.delivered
  have fits : ∀ b ∈ waiting, b.encode.length < 2 ^ 32 :=
    fun b mem => small b (sent ▸ List.mem_append_right _ mem)
  obtain ⟨limit, loads⟩ : ∃ limit, (e.client.load count).2 =
      let gathered := e.client.receiver.gather limit e.client.inbox
      { e.client with receiver := gathered.receiver, inbox := gathered.inbox }.purge.pushAll
        gathered.bundles := ⟨_, Client.load_eq inStep.unheard count⟩
  obtain ⟨left, taken, now, ready, behind⟩ := Receiver.gather_numbered limit numbered fits
  rw [← inbox, ← receiver] at left taken ready
  have stack : (e.client.load count).2.bundles =
      (e.client.receiver.gather limit e.client.inbox).bundles := by
    rw [loads]
    exact Client.bundles_pushAll rfl _
  refine ⟨inStep.server, ?_, consumed ++ waiting.take (limit.getD waiting.length), _, now, ?_, ?_,
    ?_, ?_, behind⟩
  · simp only [act, loads]
    exact inStep.unheard
  · rw [List.append_assoc, List.take_append_drop]
    exact sent
  · simp only [act, loads]
    exact left
  · simp only [act, stack]
    exact List.rel_append same taken
  · simp only [act, loads]
    exact ready

theorem InStep.act (inStep : e.InStep) {a : Action} (fair : a.Fair)
    (small : ∀ b ∈ e.sent, b.encode.length < 2 ^ 32) : (e.act a).InStep := by
  cases a with
  | load count => exact inStep.load small count
  | call c =>
    have server := inStep.server.call fair
    cases c with
    | send now => exact inStep.send now
    | append m => cases m <;> exact ⟨server, inStep.unheard, inStep.delivered⟩
    | _ => exact ⟨server, inStep.unheard, inStep.delivered⟩

theorem sent_act (e : Exchange) (a : Action) : e.sent <+: (e.act a).sent := by
  cases a with
  | load count => exact List.prefix_refl _
  | call c =>
    simp only [act]
    split
    · exact List.prefix_append ..
    · exact List.prefix_refl _

/-- What was sent stays sent. -/
theorem sent_run (e : Exchange) (actions : List Action) : e.sent <+: (e.run actions).sent := by
  induction actions generalizing e with
  | nil => exact List.prefix_refl _
  | cons a rest ih => exact (e.sent_act a).trans (ih (e.act a))

/-- Both ends stay in step for as long as the packets fit. -/
theorem InStep.run (inStep : e.InStep) {actions : List Action} (fair : ∀ a ∈ actions, a.Fair)
    (small : ∀ b ∈ (e.run actions).sent, b.encode.length < 2 ^ 32) : (e.run actions).InStep := by
  induction actions generalizing e with
  | nil => exact inStep
  | cons a rest ih =>
    rw [List.forall_mem_cons] at fair
    -- the sizes are known of what was sent in the end, and nothing that was sent is taken back
    have before : ∀ b ∈ e.sent, b.encode.length < 2 ^ 32 :=
      fun b mem => small b ((e.sent_run (a :: rest)).subset mem)
    exact ih (inStep.act fair.1 before) fair.2 small

def Action.isSend : Action → Bool
  | .call (.send _) => true
  | _ => false

/-- Every send is one more bundle. -/
theorem length_sent (plain : e.server.Plain) (actions : List Action) :
    (e.run actions).sent.length = e.sent.length + actions.countP Action.isSend := by
  induction actions generalizing e with
  | nil => rfl
  | cons a rest ih =>
    have kept : (e.act a).server.Plain ∧
        (e.act a).sent.length = e.sent.length + if a.isSend then 1 else 0 := by
      cases a with
      | load count => exact ⟨plain, rfl⟩
      | call c =>
        have server := plain.call c
        cases c with
        | send now =>
          rw [act_send plain]
          exact ⟨plain.sent, by simp [Action.isSend]⟩
        | _ => exact ⟨server, rfl⟩
    have later : (e.run (a :: rest)).sent.length = _ := ih kept.1
    rw [later, kept.2, List.countP_cons, Nat.add_assoc, Nat.add_comm (List.countP ..)]

/-- The bundles that were loaded are those that were sent and do not wait any more, in order. -/
theorem delivers_in_order {c : Config.Server} (clean : '\x00' ∉ c.sourceName.toList)
    {actions : List Action} (fair : ∀ a ∈ actions, a.Fair)
    (small : ∀ b ∈ ((fresh c).run actions).sent, b.encode.length < 2 ^ 32) :
    ((fresh c).run actions).sent.length = actions.countP Action.isSend ∧
      ∃ consumed waiting, ((fresh c).run actions).sent = consumed ++ waiting ∧
        ((fresh c).run actions).client.inbox = waiting.map Bundle.encode ∧
        List.Forall₂ Bundle.Same consumed ((fresh c).run actions).loaded := by
  obtain ⟨consumed, waiting, _, sent, inbox, same, _⟩ :=
    ((inStep_fresh clean).run fair small).delivered
  refine ⟨?_, consumed, waiting, sent, inbox, same⟩
  exact (length_sent (Server.plain_ofConfig c) actions).trans (Nat.zero_add _)

/-- Three sends, the first with a payload, and two loads that leave the last one waiting. -/
def sampleActions : List Action :=
  [.call (.sessions (·.register 7)), .call (.append (.data ⟨7, "text/plain", .binary [1]⟩)),
    .call (.send ⟨0, 1⟩), .load 1, .call (.send ⟨0, 2⟩), .call (.sessions (·.unregister 7)),
    .call (.send ⟨0, 3⟩), .load 1]

/-- The frame of one of the three sends. -/
def sampleFrame (id fraction : UInt32) : Frame :=
  { id, time := ⟨0, fraction⟩, application := "tuio-rs", address := 0x7f000001 }

theorem delivers_in_order_sample :
    let ended := (fresh {}).run sampleActions
    '\x00' ∉ ({} : Config.Server).sourceName.toList ∧ (∀ a ∈ sampleActions, a.Fair) ∧
      (∀ b ∈ ended.sent, b.encode.length < 2 ^ 32) ∧ ended.sent.length = 3 ∧
      ended.loaded =
        [⟨[.frame (sampleFrame 1 1), .data ⟨7, "text/plain", .binary [1]⟩, .alive [7]]⟩,
          ⟨[.frame (sampleFrame 2 2), .alive [7]]⟩] ∧
      ∃ consumed waiting, ended.sent = consumed ++ waiting ∧ consumed.length = 2 ∧
        waiting.length = 1 ∧ ended.client.inbox = waiting.map Bundle.encode ∧
        List.Forall₂ Bundle.Same consumed ended.loaded := by
  intro ended
  have clean : '\x00' ∉ ({} : Config.Server).sourceName.toList := by decide
  have fair : ∀ a ∈ sampleActions, a.Fair := by
    have carried : (Message.data ⟨7, "text/plain", .binary [1]⟩).Carried := by
      refine ⟨?_, by simp, by simp⟩
      simp [Message.args, Data.args, Osc.Arg.Portable, Osc.Arg.ofId]
    simp only [sampleActions, List.forall_mem_cons]
    exact ⟨trivial, ⟨trivial, carried⟩, trivial, trivial, trivial, trivial, trivial, trivial, by simp⟩
  have small : ∀ b ∈ ended.sent, b.encode.length < 2 ^ 32 := by
    decide +kernel
  have all : ended.sent =
      [⟨[.frame (sampleFrame 1 1), .data ⟨7, "text/plain", .binary [1]⟩, .alive [7]]⟩,
        ⟨[.frame (sampleFrame 2 2), .alive [7]]⟩, ⟨[.frame (sampleFrame 3 3), .alive []]⟩] := by
    rfl
  have waits : ended.client.inbox.length = 1 := by decide +kernel
  obtain ⟨number, consumed, waiting, sent, inbox, same⟩ := delivers_in_order clean fair small
  have left : waiting.length = 1 := by
    rw [← waits, show ended.client.inbox = _ from inbox, List.length_map]
  have split : consumed ++ waiting = [_, _] ++ [_] := sent.symm.trans all
  obtain ⟨taken, -⟩ := List.append_inj' split left
  -- none of the messages that arrived holds a graph
  have shown : ended.loaded = consumed := by
    refine eq_of_forall₂ (fun b mem b' whole => whole.eq fun m inside m' arrived => ?_) same
    rw [taken] at mem
    cases arrived with
    | refl => rfl
    | _ =>
      simp only [List.mem_cons, List.not_mem_nil, or_false] at mem
      rcases mem with rfl | rfl <;> simp at inside
  exact ⟨clean, fair, small, number, shown.trans taken, consumed, waiting, sent,
    congrArg List.length taken, left, inbox, same⟩

end Exchange

end Tangible
