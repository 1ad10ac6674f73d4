import Tangible.Network.Server
import Tangible.Proofs.Bundle.Framed

/-!
# Runs of a server

A run is any sequence of calls of a server without processors: appending messages, changing the
template or the sessions, sending. A server that begins with an empty queue never queues a frame or
an alive list (`Server.Plain`), so every send of a run succeeds with the bundle that was prepared
(`Server.Plain.send`, `Server.send_of_mem_run`).
-/

namespace Tangible.Server

/-- A call of a server. Whatever happens to the sessions between two sends is one change of them. -/
inductive Call where
  | append (m : Message)
  | template (frame : Frame)
  | sessions (change : Sessions → Sessions)
  | paranoid (on : Bool)
  | send (now : Timetag)

/-- What a call comes to if it is a send, and the server afterwards. -/
def call (s : Server) : Call → Option (Except SendError Sent) × Server
  | .append m => (none, (s.append m).toOption.getD s)
  | .template frame => (none, { s with template := frame })
  | .sessions change => (none, { s with sessions := change s.sessions })
  | .paranoid on => (none, { s with paranoid := on })
  | .send now => (some (s.send now), ((s.send now).toOption.map Sent.server).getD s)

/-- What the sends of a run come to, and the server behind them. -/
def run (s : Server) : List Call → List (Except SendError Sent) × Server
  | [] => ([], s)
  | c :: rest =>
    let (result, s) := s.call c
    let (results, s) := s.run rest
    (result.toList ++ results, s)

/-- No processors, and a queue without frames and alive lists. -/
structure Plain (s : Server) : Prop where
  detached : s.attached = []
  pending : ∀ m ∈ s.pending, m.isFrame = false ∧ m.isAlive = false

variable {s : Server}

theorem plain_ofConfig (c : Config.Server) : (ofConfig c).Plain :=
  ⟨rfl, by simp [ofConfig]⟩

/-- The server behind a send that succeeds. -/
def sent (s : Server) : Server := { s with pending := [], frames := s.frames.advance }

theorem checkOutput_framed {b : Bundle} (framed : b.Framed) : checkOutput b = .ok () := by
  rw [checkOutput, Bundle.checkOutput_eq_ok_iff.mpr framed]
  rfl

/-- Every send succeeds. -/
theorem Plain.send (plain : s.Plain) (now : Timetag) :
    s.send now = .ok ⟨s.prepare now, (s.prepare now).encode, s.sent⟩ := by
  have untouched : s.runAttached (s.prepare now) = .ok (s.prepare now) := by
    rw [runAttached, plain.detached]
    rfl
  have checked : checkOutput (s.prepare now) = .ok () :=
    checkOutput_framed ⟨_, _, _, rfl, plain.pending⟩
  rw [Server.send, untouched]
  simp only [bind, Except.bind, checked]
  rfl

theorem Plain.call_send (plain : s.Plain) (now : Timetag) :
    s.call (.send now) =
      (some (.ok ⟨s.prepare now, (s.prepare now).encode, s.sent⟩), s.sent) := by
  rw [Server.call, plain.send]
  rfl

theorem Plain.sent (plain : s.Plain) : s.sent.Plain :=
  ⟨plain.detached, by simp [Server.sent]⟩

theorem Plain.push (plain : s.Plain) {m : Message} (body : m.isFrame = false ∧ m.isAlive = false) :
    Plain { s with pending := s.pending ++ [m] } := by
  refine ⟨plain.detached, fun m' mem => ?_⟩
  rcases List.mem_append.mp mem with queued | here
  · exact plain.pending m' queued
  · rwa [List.mem_singleton.mp here]

/-- Frames and alive lists stay out of the queue. -/
theorem Plain.call (plain : s.Plain) (c : Call) : (s.call c).2.Plain := by
  cases c with
  | append m =>
    cases m with
    | frame => exact ⟨plain.detached, plain.pending⟩
    | alive => exact plain
    | _ => exact plain.push ⟨rfl, rfl⟩
  | template => exact ⟨plain.detached, plain.pending⟩
  | sessions => exact ⟨plain.detached, plain.pending⟩
  | paranoid => exact ⟨plain.detached, plain.pending⟩
  | send now =>
    rw [plain.call_send]
    exact plain.sent

/-- A result of a run is a send from a plain server. -/
theorem send_of_mem_run (plain : s.Plain) {calls : List Call} {result : Except SendError Sent}
    (mem : result ∈ (s.run calls).1) :
    ∃ s' : Server, ∃ now, s'.Plain ∧ result = s'.send now := by
  induction calls generalizing s with
  | nil => simp [run] at mem
  | cons c rest ih =>
    rcases List.mem_append.mp mem with here | later
    · cases c with
      | send now => exact ⟨s, now, plain, Option.mem_some.mp (Option.mem_toList.mp here) |>.symm⟩
      | _ => simp at here
    · exact ih (plain.call c) later

end Tangible.Server
