import Mathlib
import Tangible.Proofs.Bundle.Framed
import Tangible.Proofs.Network.Stacks

/-!
# Every accepted bundle is framed

A run is any sequence of calls of a client: packets and loads, with any change of the registry
between them. Convertors are any functions from messages to messages, and packets are any bytes.
An onlooker writes down the decoded messages and the accepted bundles (`Client.Ledger`).

`Client.Agrees` is what the state of a client has to do with its ledger. Each call keeps it
(`Client.Agrees.call`), so in every run the accepted bundles are framed, they are stretches of the
decoded messages one behind the other, and the open bundle is the rest (`Client.accepted_framed`).
-/

namespace Tangible

namespace Assembly

variable {a : Assembly}

/-- A message extends the open bundle or closes it, or it opens another one. -/
theorem feed_framed (opened : ∀ b ∈ a.opened, b.Open) (m : Message) :
    (∀ b ∈ (a.feed m).1, b.Framed) ∧ ∀ b ∈ (a.feed m).2.opened, b.Open := by
  have step := a.feeds m
  generalize a.feed m = result at *
  cases step with
  | opens frame => simpa using Bundle.open_of_isFrame frame
  | drops => exact ⟨by simp, opened⟩
  | pushes here noFrame noAlive => simpa using (opened _ here).push ⟨noFrame, noAlive⟩
  | @closes b here _ alive =>
    obtain ⟨same, shut⟩ := a.close_step (b.push m)
    refine ⟨fun b' accepted => ?_, by simp [shut]⟩
    rw [same b' accepted]
    exact (opened b here).close alive

theorem feedAll_framed_open (opened : ∀ b ∈ a.opened, b.Open) (ms : List Message) :
    (∀ b ∈ (a.feedAll ms).1, b.Framed) ∧ ∀ b ∈ (a.feedAll ms).2.opened, b.Open := by
  induction ms generalizing a with
  | nil => exact ⟨List.forall_mem_nil _, opened⟩
  | cons m ms ih =>
    obtain ⟨now, opened'⟩ := feed_framed opened m
    obtain ⟨later, opened''⟩ := ih opened'
    rw [feedAll_cons]
    refine ⟨List.forall_mem_append.mpr ⟨fun b mem => ?_, later⟩, opened''⟩
    exact now b (Option.mem_toList.mp mem)

end Assembly

namespace Client

/-! ## Runs -/

/-- A call of a client. Convertors may be bound, unbound and switched in any way between two
packets. A load that its transport cuts short comes to a purge and packets, and one that a listener
cuts short leaves what it had gathered. -/
inductive Call where
  | process (packet : Datagram)
  | load (count : Nat)
  | deliver (packet : Datagram)
  | registry (change : Registry → Registry)
  | acceptUnknown (accept : Bool)
  | attach (l : Listener)
  | detach (l : Listener)
  | take (place : Nat)
  | latest
  | purge

def call (c : Client) : Call → Client
  | .process packet => (c.process packet).2
  | .load count => (c.load count).2
  | .deliver packet => c.deliver packet
  | .registry change => { c with receiver.registry := change c.receiver.registry }
  | .acceptUnknown accept => { c with receiver.acceptUnknown := accept }
  | .attach l => c.attach l
  | .detach l => c.detach l
  | .take place => ((c.take? place).toOption.map (·.2)).getD c
  | .latest => (c.latest?.map (·.2)).getD c
  | .purge => c.purge

/-- What an onlooker writes down of a run: the messages that were decoded, and the bundles that were
accepted. -/
structure Ledger where
  heard : List Message := []
  accepted : List Bundle := []

/-- The bundles that a packet completes come behind those on the stack. A load takes packets from
the front of the inbox, and the stack has only the bundles of these packets. -/
def Ledger.note (l : Ledger) (before after : Client) : Call → Ledger
  | .process packet =>
    ⟨l.heard ++ before.receiver.heard [packet],
      l.accepted ++ after.bundles.drop before.bundles.length⟩
  | .load _ =>
    let taken := before.inbox.take (before.inbox.length - after.inbox.length)
    ⟨l.heard ++ before.receiver.heard taken, l.accepted ++ after.bundles⟩
  | _ => l

def run : Client → Ledger → List Call → Client × Ledger
  | c, l, [] => (c, l)
  | c, l, call :: rest => run (c.call call) (l.note c (c.call call) call) rest

/-- What a client has to do with the ledger of its run. -/
structure Agrees (c : Client) (l : Ledger) : Prop where
  guarded : c.Guarded
  opened : ∀ b ∈ c.receiver.assembly.opened, b.Open
  framed : ∀ b ∈ l.accepted, b.Framed
  shown : c.bundles <:+ l.accepted
  runs : ∃ before, l.heard = before ++ c.receiver.assembly.held ∧
    Assembly.Runs before l.accepted

namespace Agrees

variable {c c' : Client} {l : Ledger}

/-- Messages that are heard, whatever becomes of the stack. -/
theorem hear (agrees : c.Agrees l) {ms : List Message} (guarded : c'.Guarded)
    (fed : c'.receiver.assembly = (c.receiver.assembly.feedAll ms).2)
    (shown : c'.bundles <:+ l.accepted ++ (c.receiver.assembly.feedAll ms).1) :
    c'.Agrees ⟨l.heard ++ ms, l.accepted ++ (c.receiver.assembly.feedAll ms).1⟩ := by
  obtain ⟨framed, opened⟩ := Assembly.feedAll_framed_open agrees.opened ms
  obtain ⟨before, split, runs⟩ := agrees.runs
  obtain ⟨later, split', runs'⟩ := c.receiver.assembly.feedAll_runs ms
  refine ⟨guarded, fed ▸ opened, List.forall_mem_append.mpr ⟨agrees.framed, framed⟩, shown,
    before ++ later, ?_, runs.append runs'⟩
  calc l.heard ++ ms = before ++ (c.receiver.assembly.held ++ ms) := by
        rw [split, List.append_assoc]
    _ = before ++ later ++ c'.receiver.assembly.held := by
        rw [split', fed, List.append_assoc]

/-- Calls that the ledger does not see: nothing is heard, and the stack loses its front at most. -/
theorem silent (agrees : c.Agrees l) (assembly : c'.receiver.assembly = c.receiver.assembly)
    (chain : c'.chain = c.chain) (stack : c'.stack <:+ c.stack) : c'.Agrees l := by
  refine ⟨⟨?_, chain ▸ agrees.guarded.copying⟩, assembly ▸ agrees.opened, agrees.framed, ?_,
    assembly ▸ agrees.runs⟩
  · rw [chain]
    exact fun cell mem => agrees.guarded.held cell (stack.subset mem)
  · rw [bundles, chain]
    exact (stack.map _).trans agrees.shown

theorem process (agrees : c.Agrees l) (packet : Datagram) :
    (c.call (.process packet)).Agrees
      (l.note c (c.call (.process packet)) (.process packet)) := by
  cases decoded : c.receiver.messages? packet with
  | error e =>
    have same : c.call (.process packet) = c :=
      congrArg Prod.snd (process_error (Receiver.messages?_eq_error_iff.mp decoded))
    have nothing : c.receiver.heard [packet] = [] := Receiver.heard_cons_error decoded []
    simpa [Ledger.note, same, nothing] using agrees
  | ok messages =>
    have next : c.call (.process packet) = c.hearing messages :=
      congrArg Prod.snd (process_eq decoded)
    have heard : c.receiver.heard [packet] = messages := by
      rw [Receiver.heard_cons_ok decoded]
      exact List.append_nil _
    obtain ⟨guarded, bundles⟩ := agrees.guarded.hearing messages
    have new : (c.hearing messages).bundles.drop c.bundles.length =
        (c.receiver.assembly.feedAll messages).1 := by
      rw [bundles, List.drop_left]
    rw [Ledger.note, next, heard, new]
    refine agrees.hear guarded rfl ?_
    obtain ⟨before, shown⟩ := agrees.shown
    exact ⟨before, by rw [bundles, ← shown, List.append_assoc]⟩

theorem load (agrees : c.Agrees l) (count : Nat) :
    (c.call (.load count)).Agrees (l.note c (c.call (.load count)) (.load count)) := by
  obtain ⟨taken, split, bundles, receiver, guarded⟩ := agrees.guarded.load count
  have gone : c.inbox.take (c.inbox.length - (c.load count).2.inbox.length) = taken := by
    rw [split, List.length_append, Nat.add_sub_cancel, List.take_left]
  simp only [Client.call, Ledger.note, gone]
  rw [bundles]
  exact agrees.hear guarded (congrArg Receiver.assembly receiver)
    (bundles ▸ List.suffix_append ..)

theorem call (agrees : c.Agrees l) (call : Call) :
    (c.call call).Agrees (l.note c (c.call call) call) := by
  cases call with
  | process packet => exact agrees.process packet
  | load count => exact agrees.load count
  | deliver packet => exact agrees.silent rfl rfl List.suffix_rfl
  | registry change => exact agrees.silent rfl rfl List.suffix_rfl
  | acceptUnknown accept => exact agrees.silent rfl rfl List.suffix_rfl
  | attach l => exact agrees.silent rfl rfl List.suffix_rfl
  | detach l => exact agrees.silent rfl rfl List.suffix_rfl
  | take place =>
    simp only [Client.call, Ledger.note, take?, Stack.take?]
    cases c.stack[place]? with
    | none => exact agrees
    | some cell => exact agrees.silent rfl rfl (List.drop_suffix ..)
  | latest =>
    simp only [Client.call, Ledger.note, latest?, Stack.latest?]
    cases c.stack.getLast? with
    | none => exact agrees
    | some cell => exact agrees.silent rfl rfl List.nil_suffix
  | purge => exact agrees.silent rfl rfl List.nil_suffix

theorem run (agrees : c.Agrees l) (calls : List Call) :
    (Client.run c l calls).1.Agrees (Client.run c l calls).2 := by
  induction calls generalizing c l with
  | nil => exact agrees
  | cons call rest ih => exact ih (agrees.call call)

end Agrees

/-- A client that has not heard anything. No adaptor behind it writes into its bundles. -/
structure Fresh (c : Client) : Prop where
  assembly : c.receiver.assembly = {}
  stack : c.stack = []
  copying : c.chain.Copying

theorem Fresh.agrees {c : Client} (fresh : c.Fresh) : c.Agrees {} where
  guarded := ⟨fresh.stack ▸ List.forall_mem_nil _, fresh.copying⟩
  opened := by simp [fresh.assembly]
  framed := List.forall_mem_nil _
  shown := by simp [bundles, Chain.bundles, fresh.stack]
  runs := ⟨[], by simp [fresh.assembly, Assembly.held], .nil []⟩

/-- In every run the bundles on the stack have been accepted, and all accepted bundles pass the
check of a sender: the first message and no other is a frame, the last one and no other is an alive
list. They are stretches of the decoded messages one behind the other. The open bundle begins with
its only frame and has no alive list, and it is the end of the decoded messages. -/
theorem accepted_framed {c : Client} (fresh : c.Fresh) (calls : List Call) :
    let (c', l) := run c {} calls
    c'.bundles <:+ l.accepted ∧
      (∀ b ∈ l.accepted, b.checkOutput = .ok () ∧ b.Framed) ∧
      (∀ b ∈ c'.receiver.assembly.opened, b.Open) ∧
      ∃ before, l.heard = before ++ c'.receiver.assembly.held ∧
        Assembly.Runs before l.accepted := by
  have agrees := fresh.agrees.run calls
  refine ⟨agrees.shown, fun b mem => ?_, agrees.opened, agrees.runs⟩
  have framed := agrees.framed b mem
  exact ⟨Bundle.checkOutput_eq_ok_iff.mpr framed, framed⟩

/-- A frame is left open, and the alive list behind it is not heard. The next load interrupts it with
a frame that is closed, and opens another one. -/
def interrupted : List Call :=
  let frame : Datagram := Osc.Message.encode ⟨"/f", []⟩
  let alive : Datagram := Osc.Message.encode ⟨"/a", []⟩
  [ .registry fun r => r.bindConvertor "/f" fun _ => some (.frame { id := 1 }),
    .registry fun r => r.bindConvertor "/a" fun _ => some (.alive [3]),
    .process frame, .registry (·.setEnabled "/a" false), .process alive,
    .registry (·.setEnabled "/a" true), .deliver frame, .deliver alive, .deliver frame, .load 0 ]

theorem accepted_framed_interrupted :
    let (c, l) := run {} {} interrupted
    l.heard = [.frame { id := 1 }, .frame { id := 1 }, .alive [3], .frame { id := 1 }] ∧
      c.bundles = [⟨[.frame { id := 1 }, .alive [3]]⟩] ∧ c.bundles <:+ l.accepted ∧
      ∀ b ∈ l.accepted, b.checkOutput = .ok () ∧ b.Framed := by
  have fresh : Fresh {} := ⟨rfl, rfl, List.forall_mem_nil _⟩
  have all := accepted_framed fresh interrupted
  exact ⟨by cbv, by cbv, all.1, all.2.1⟩

end Client

end Tangible
