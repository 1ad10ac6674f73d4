import Mathlib
import Tangible.Network.Endpoint
import Tangible.Proofs.Network.Sending
import Tangible.Proofs.Network.Serial
import Tangible.Proofs.Session

/-!
# Sends that fail

A send ends at its first failure. Everything that can fail comes before the first assignment to the
server (`Endpoint.on_send`), so a send that fails leaves the server as it was, and only a failing
transport may have changed. Over a whole run of a server without adaptors, an onlooker who writes
down what was appended, registered and sent (`Endpoint.Ledger`) finds every message sent once, in
order, in numbered bundles (`Endpoint.Agrees`).
-/

namespace Tangible

namespace Sending

variable {T ε α β : Type}

theorem on_pure (a : α) (e : Endpoint T) : on (pure a : Sending T ε α) e = (.ok a, e) := rfl

theorem on_get (e : Endpoint T) : on (get : Sending T ε (Endpoint T)) e = (.ok e, e) := rfl

theorem on_modify (f : Endpoint T → Endpoint T) (e : Endpoint T) :
    on (modify f : Sending T ε Unit) e = (.ok (), f e) := rfl

/-- The first failure ends the steps. -/
theorem on_bind (first : Sending T ε α) (next : α → Sending T ε β) (e : Endpoint T) :
    on (first >>= next) e =
      match on first e with
      | (.ok a, e') => on (next a) e'
      | (.error cause, e') => (.error cause, e') := by
  simp only [on, bind, ExceptT.bind, ExceptT.run, ExceptT.mk, StateT.run, StateT.bind]
  rcases first e with ⟨a | cause, e'⟩
  · rfl
  · rfl

theorem on_accept (result : Except SendError α) (e : Endpoint T) :
    on (accept result : Sending T ε α) e = (result.mapError .refused, e) := by
  cases result with
  | ok a => rfl
  | error cause => rfl

theorem on_commit (transmit : Transmit T ε) (b : Bundle) (e : Endpoint T) :
    on (commit transmit b) e =
      ((transmit e.transport b.encode).1.mapError .transport,
        { e with transport := (transmit e.transport b.encode).2 }) := by
  simp only [commit, on_bind, on_get, on_modify]
  cases (transmit e.transport b.encode).1 with
  | ok => rfl
  | error cause => rfl

end Sending

namespace Endpoint

variable {T ε : Type}

open Sending

/-- A send is the send of the server and then that of the transport. -/
theorem on_send (transmit : Transmit T ε) (now : Timetag) (e : Endpoint T) :
    (send transmit now).on e =
      match e.server.send now with
      | .error cause => (.error (.refused cause), e)
      | .ok sent =>
        match transmit e.transport sent.packet with
        | (.ok (), transport) => (.ok sent.bundle, ⟨sent.server, transport⟩)
        | (.error cause, transport) => (.error (.transport cause), ⟨e.server, transport⟩) := by
  simp only [send, on_bind, on_get, on_accept, on_modify, on_pure, on_commit]
  unfold Server.send
  cases e.server.runAttached (e.server.prepare now) with
  | error cause => rfl
  | ok b =>
    cases checked : Server.checkOutput b with
    | error cause => simp only [bind, Except.bind, Except.mapError, checked]
    | ok =>
      simp only [bind, Except.bind, Except.mapError, checked, pure, Except.pure]
      rcases transmit e.transport b.encode with ⟨cause | _, transport⟩
      · rfl
      · rfl

/-! ## Runs -/

/-- A bundle that was sent, and how often each session was registered then. -/
structure Shipment where
  bundle : Bundle
  registered : UInt32 → Nat

/-- What an onlooker writes down of a run: the appended messages, the registrations that were not
taken back, and the bundles that were sent. -/
structure Ledger where
  appended : List Message := []
  registered : UInt32 → Nat := fun _ => 0
  sent : List Shipment := []

namespace Ledger

def register (l : Ledger) (id : UInt32) : Ledger :=
  { l with
    registered := fun other => if other = id then l.registered id + 1 else l.registered other }

def unregister (l : Ledger) (id : UInt32) : Ledger :=
  { l with
    registered := fun other => if other = id then l.registered id - 1 else l.registered other }

/-- The server tells the id that it registers next. -/
def note (l : Ledger) (s : Server) (c : Call) (result : Option (Except (SendFailure ε) Bundle)) :
    Ledger :=
  match c, result with
  | .append m, _ => { l with appended := l.appended ++ [m] }
  | .register id, _ => l.register id
  | .registerNext, _ => l.register s.sessions.nextId
  | .unregister id, _ => l.unregister id
  | .clearSessions, _ => { l with registered := fun _ => 0 }
  | .send _, some (.ok b) => { l with sent := l.sent ++ [⟨b, l.registered⟩] }
  | _, _ => l

end Ledger

/-- What a bundle has between its first message and its last one. -/
def body (b : Bundle) : List Message := b.messages.tail.dropLast

/-- The bundle is framed and numbered by its place, and its alive list tells who was registered. -/
def Shipment.Sound (place : Nat) (shipment : Shipment) : Prop :=
  ∃ frame ids, shipment.bundle.messages = .frame frame :: body shipment.bundle ++ [.alive ids] ∧
    frame.id.toNat = place % 4294967295 + 1 ∧ ids.Pairwise (· < ·) ∧
    ∀ id, id ∈ ids ↔ 0 < shipment.registered id

/-- Whether an appended message is to be queued. -/
def isQueued (m : Message) : Bool := !m.isFrame && !m.isAlive

/-- What an endpoint without adaptors has to do with the ledger of its run. -/
structure Agrees (e : Endpoint T) (l : Ledger) : Prop where
  plain : e.server.Plain
  kept : e.server.sessions.Kept
  counted : ∀ id, e.server.sessions.count id = l.registered id
  numbered : e.server.frames.next = serial 1 l.sent.length
  sound : ∀ place (shipment : Shipment), l.sent[place]? = some shipment → shipment.Sound place
  queued : l.sent.flatMap (body ·.bundle) ++ e.server.pending = l.appended.filter isQueued

/-- The endpoint and the ledger behind calls. -/
def run (transmit : Transmit T ε) : Endpoint T → Ledger → List Call → Endpoint T × Ledger
  | e, l, [] => (e, l)
  | e, l, c :: rest =>
    let (result, e') := e.call transmit c
    run transmit e' (l.note e.server c result) rest

namespace Agrees

variable {transmit : Transmit T ε} {e : Endpoint T} {l : Ledger}

theorem fresh (c : Config.Server) (transport : T) : Agrees ⟨.ofConfig c, transport⟩ {} where
  plain := Server.plain_ofConfig c
  kept := .empty
  counted _ := rfl
  numbered := rfl
  sound _ _ none := by simp at none
  queued := rfl

theorem body_prepare (s : Server) (now : Timetag) : body (s.prepare now) = s.pending := by
  simp [body, Server.prepare]

/-- A prepared bundle is what the next shipment has to be. -/
theorem prepare_sound (agrees : e.Agrees l) (now : Timetag) :
    Shipment.Sound l.sent.length ⟨e.server.prepare now, l.registered⟩ := by
  refine ⟨{ e.server.template with id := e.server.frames.next, time := now },
    e.server.sessions.ids, ?_, ?_, agrees.kept.ids_ascend, fun id => ?_⟩
  · rw [body_prepare]
    rfl
  · have first : (1 : UInt32).toNat = 1 := rfl
    simp only [agrees.numbered, toNat_serial (by decide : (1 : UInt32) ≠ 0), first]
    omega
  · rw [agrees.kept.mem_ids, agrees.counted]

theorem sent (agrees : e.Agrees l) (now : Timetag) (transport : T) :
    Agrees ⟨e.server.sent, transport⟩
      { l with sent := l.sent ++ [⟨e.server.prepare now, l.registered⟩] } where
  plain := agrees.plain.sent
  kept := agrees.kept
  counted := agrees.counted
  numbered := by
    rw [List.length_append, List.length_singleton, serial, ← agrees.numbered]
    rfl
  sound place shipment found := by
    rw [List.getElem?_append] at found
    split at found
    · exact agrees.sound place shipment found
    · next later =>
      rw [List.getElem?_singleton] at found
      split at found
      · next here =>
        obtain rfl := Option.some.inj found
        have : place = l.sent.length := by omega
        exact this ▸ agrees.prepare_sound now
      · simp at found
  queued := by
    rw [← agrees.queued, List.flatMap_append, List.flatMap_singleton, body_prepare]
    exact List.append_nil _

theorem append (agrees : e.Agrees l) (m : Message) :
    Agrees { e with server := (e.server.append m).toOption.getD e.server }
      { l with appended := l.appended ++ [m] } := by
  have queue (queued : isQueued m) : l.sent.flatMap (body ·.bundle) ++ (e.server.pending ++ [m]) =
      (l.appended ++ [m]).filter isQueued := by
    rw [← List.append_assoc, agrees.queued, List.filter_append, List.filter_cons_of_pos queued]
    rfl
  have skip (apart : ¬ isQueued m) : l.sent.flatMap (body ·.bundle) ++ e.server.pending =
      (l.appended ++ [m]).filter isQueued := by
    rw [agrees.queued, List.filter_append, List.filter_cons_of_neg apart]
    exact (List.append_nil _).symm
  cases m with
  | frame frame =>
    exact ⟨⟨agrees.plain.detached, agrees.plain.pending⟩, agrees.kept, agrees.counted,
      agrees.numbered, agrees.sound, skip Bool.false_ne_true⟩
  | alive ids =>
    exact ⟨agrees.plain, agrees.kept, agrees.counted, agrees.numbered, agrees.sound,
      skip Bool.false_ne_true⟩
  | _ =>
    exact ⟨agrees.plain.push ⟨rfl, rfl⟩, agrees.kept, agrees.counted, agrees.numbered, agrees.sound,
      queue rfl⟩

/-- Changes of the registry that the ledger takes part in. -/
theorem recount (agrees : e.Agrees l) {sessions : Sessions} {registered : UInt32 → Nat}
    (kept : sessions.Kept) (counted : ∀ id, sessions.count id = registered id) :
    Agrees { e with server.sessions := sessions } { l with registered } :=
  ⟨⟨agrees.plain.detached, agrees.plain.pending⟩, kept, counted, agrees.numbered, agrees.sound,
    agrees.queued⟩

theorem register (agrees : e.Agrees l) (id : UInt32) :
    Agrees { e with server.sessions := e.server.sessions.register id } (l.register id) := by
  refine agrees.recount (agrees.kept.register id) fun other => ?_
  rw [agrees.kept.count_register, agrees.counted, agrees.counted]

theorem unregister (agrees : e.Agrees l) (id : UInt32) :
    Agrees { e with server.sessions := e.server.sessions.unregister id } (l.unregister id) := by
  refine agrees.recount (agrees.kept.unregister id) fun other => ?_
  rw [agrees.kept.count_unregister, agrees.counted, agrees.counted]

/-- Changes that the ledger does not see. -/
theorem reset (agrees : e.Agrees l) {paranoid : Bool} {template : Frame}
    {attached : List Attachment} (detached : attached = []) :
    Agrees { e with server := { e.server with paranoid, template, attached } } l :=
  ⟨⟨detached, agrees.plain.pending⟩, agrees.kept, agrees.counted, agrees.numbered, agrees.sound,
    agrees.queued⟩

theorem call (agrees : e.Agrees l) {c : Call} (unattached : ∀ a, c ≠ .attach a) :
    Agrees (e.call transmit c).2 (l.note e.server c (e.call transmit c).1) := by
  cases c with
  | append m => exact agrees.append m
  | template frame => exact agrees.reset agrees.plain.detached
  | register id => exact agrees.register id
  | registerNext => exact agrees.register e.server.sessions.nextId
  | unregister id => exact agrees.unregister id
  | clearSessions => exact agrees.recount (.clear _) fun _ => rfl
  | attach a => exact absurd rfl (unattached a)
  | detach id =>
    refine agrees.reset ?_
    rw [agrees.plain.detached]
    rfl
  | retune processor =>
    refine agrees.reset ?_
    rw [agrees.plain.detached]
    rfl
  | paranoid on => exact agrees.reset agrees.plain.detached
  | send now =>
    have whole := on_send transmit now e
    rw [agrees.plain.send] at whole
    cases handed : transmit e.transport (e.server.prepare now).encode with
    | mk result transport =>
      simp only [handed] at whole
      cases result with
      | ok =>
        simp only [Endpoint.call, whole]
        exact agrees.sent now transport
      | error cause =>
        simp only [Endpoint.call, whole]
        exact ⟨agrees.plain, agrees.kept, agrees.counted, agrees.numbered, agrees.sound,
          agrees.queued⟩

theorem run (agrees : e.Agrees l) {calls : List Call} (unattached : ∀ a, .attach a ∉ calls) :
    Agrees (Endpoint.run transmit e l calls).1 (Endpoint.run transmit e l calls).2 := by
  induction calls generalizing e l with
  | nil => exact agrees
  | cons c rest ih =>
    have here : ∀ a, c ≠ .attach a := by
      rintro a rfl
      exact unattached a (List.mem_cons_self ..)
    exact ih (agrees.call here) fun a mem => unattached a (List.mem_cons_of_mem _ mem)

end Agrees

end Endpoint

end Tangible
