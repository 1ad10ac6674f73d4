import Tangible.Proofs.Network.Row

/-!
# Load schedules

A load takes the shortest prefix of its inbox that brings as many bundles as it was asked for, or
all of it (`Receiver.gather_shortest`). The receiver keeps what it has of a bundle for the next
load, so it does not matter where the loads cut the inbox: the stacks of all loads one behind the
other are the stack of a single load, and the receiver comes to the same state
(`Client.schedules_equivalent`). Every load comes back, as no adaptor leads back to itself.
-/

namespace Tangible

namespace Receiver

variable {r : Receiver}

/-- The bundles that are accepted from packets. -/
def accepts (r : Receiver) (packets : List Datagram) : List Bundle :=
  (r.assembly.feedAll (r.heard packets)).1

/-- The receiver behind packets. -/
def behind (r : Receiver) (packets : List Datagram) : Receiver :=
  { r with assembly := (r.assembly.feedAll (r.heard packets)).2 }

theorem accepts_append (r : Receiver) (packets rest : List Datagram) :
    r.accepts (packets ++ rest) = r.accepts packets ++ (r.behind packets).accepts rest := by
  simp only [accepts, behind, heard, List.flatMap_append, Assembly.feedAll_append]
  rfl

theorem behind_append (r : Receiver) (packets rest : List Datagram) :
    r.behind (packets ++ rest) = (r.behind packets).behind rest := by
  simp only [behind, heard, List.flatMap_append, Assembly.feedAll_append]
  rfl

/-- What one packet brings, and the receiver behind it: a packet that cannot be decoded brings
nothing. -/
theorem exists_received (r : Receiver) (packet : Datagram) :
    ∃ (bundles : List Bundle) (r' : Receiver),
      (∀ rest, r.accepts (packet :: rest) = bundles ++ r'.accepts rest) ∧
      ∀ limit rest, limit ≠ some 0 → (r.gather limit (packet :: rest)).inbox =
        (r'.gather (limit.map (· - bundles.length)) rest).inbox := by
  cases decoded : r.messages? packet with
  | error e =>
    refine ⟨[], r, fun rest => ?_, fun limit rest wanted => ?_⟩
    · rw [accepts, heard_cons_error decoded]
      rfl
    · rw [gather, if_neg wanted, receive, decoded]
      simp
  | ok messages =>
    refine ⟨(r.assembly.feedAll messages).1,
      { r with assembly := (r.assembly.feedAll messages).2 }, fun rest => ?_,
      fun limit rest wanted => ?_⟩
    · rw [accepts, heard_cons_ok decoded, Assembly.feedAll_append]
      rfl
    · rw [gather, if_neg wanted, receive, decoded]

/-- No shorter prefix brings as many bundles as are wanted, and the one that is taken does unless
nothing is left. -/
theorem gather_shortest (r : Receiver) (limit : Option Nat) {packets taken : List Datagram}
    (split : packets = taken ++ (r.gather limit packets).inbox) :
    (∀ front, front <+: taken → front ≠ taken → ∀ k ∈ limit, (r.accepts front).length < k) ∧
      ((r.gather limit packets).inbox = [] ∨ ∃ k ∈ limit, k ≤ (r.accepts taken).length) := by
  induction packets generalizing r limit taken with
  | nil =>
    obtain ⟨rfl, none⟩ := List.append_eq_nil_iff.mp split.symm
    exact ⟨fun front shorter other => absurd (List.prefix_nil.mp shorter) other, .inl none⟩
  | cons packet rest ih =>
    by_cases done : limit = some 0
    · have left : (r.gather limit (packet :: rest)).inbox = packet :: rest := by
        rw [gather, if_pos done]
      rw [left, List.self_eq_append_left] at split
      subst split
      exact ⟨fun front shorter other => absurd (List.prefix_nil.mp shorter) other,
        .inr ⟨0, done, Nat.zero_le _⟩⟩
    · obtain ⟨bundles, r', accepts, gathers⟩ := r.exists_received packet
      obtain ⟨behind, split', -⟩ := r'.gather_taken (limit.map (· - bundles.length)) rest
      rw [gathers limit rest done] at split ⊢
      obtain rfl : packet :: behind = taken :=
        List.append_cancel_right ((congrArg (packet :: ·) split').symm.trans split)
      obtain ⟨short, enough⟩ := ih r' _ split'
      constructor
      · intro front shorter other k wanted
        cases front with
        | nil =>
          have positive : k ≠ 0 := fun zero => done (zero ▸ wanted)
          exact Nat.pos_of_ne_zero positive
        | cons first front =>
          obtain ⟨rfl, within⟩ := List.cons_prefix_cons.mp shorter
          have less := short front within (fun same => other (same ▸ rfl)) _
            (Option.mem_map_of_mem (· - bundles.length) wanted)
          rw [accepts, List.length_append]
          omega
      · refine enough.imp_right fun reached => ?_
        obtain ⟨_, less, reached⟩ := reached
        obtain ⟨k, wanted, rfl⟩ := Option.mem_map.mp less
        refine ⟨k, wanted, ?_⟩
        rw [accepts, List.length_append]
        omega

end Receiver

namespace Client

variable {c c' : Client}

/-- The listeners of the client are different ones, nobody behind it edits bundles, and nobody leads
back to itself: a load would stop the program where it tells an adaptor that is being told. -/
structure Plain (c : Client) : Prop where
  distinct : c.listeners.members.Nodup
  copying : c.chain.Copying
  acyclic : c.chain.Acyclic

theorem Plain.guarded (plain : c.Plain) : c.purge.Guarded :=
  ⟨List.forall_mem_nil _, plain.copying⟩

theorem load_listeners (c : Client) (count : Nat) : (c.load count).2.listeners = c.listeners := by
  rw [load_announces]
  split
  · rfl
  · rfl

/-- A load attaches no listener twice, and it makes nobody edit or lead back to itself. -/
theorem Plain.load (plain : c.Plain) (count : Nat) : (c.load count).2.Plain where
  distinct := c.load_listeners count ▸ plain.distinct
  copying := (plain.guarded.call (.load count)).copying
  acyclic := plain.acyclic.of_wiring (plain.guarded.call_wiring (.load count))

/-! ## One load -/

/-- What a load does that says `reply` and leaves `c'`. -/
structure Loads (c : Client) (count : Nat) (reply : Bool) (c' : Client) : Prop where
  /-- The shortest prefix that brings enough bundles is taken, or everything. -/
  taken : ∃ taken, c.inbox = taken ++ c'.inbox ∧ c'.bundles = c.receiver.accepts taken ∧
    c'.receiver = c.receiver.behind taken ∧
    (∀ front, front <+: taken → front ≠ taken →
      count = 0 ∨ (c.receiver.accepts front).length < count) ∧
    (c'.inbox = [] ∨ count ≠ 0 ∧ count ≤ (c.receiver.accepts taken).length)
  answer : reply = true ↔ c'.bundles ≠ []
  listeners : c'.listeners = c.listeners ∧ c.listeners.members.Nodup
  /-- Nobody hears of nothing. -/
  silent : reply = false →
    c'.chain.adaptors = c.chain.adaptors ∧ c'.chain.recorders = c.chain.recorders
  /-- The listeners are told one after the other. -/
  told : reply = true → ∃ chain : Chain, chain.adaptors = c.chain.adaptors ∧
    chain.recorders = c.chain.recorders ∧ chain.bundles c'.stack = c'.bundles ∧
    chain.notifyAll c'.stack c.listeners = (.ok (), c'.chain)
  /-- A recorder hears once of what passes the adaptors before it. -/
  recorded : ∀ adaptors recorder, c.Row adaptors recorder →
    c'.chain.recorders[recorder]? = c.chain.recorders[recorder]?.map
      (·.told (c'.bundles.filterMap (Processor.through (adaptors.map (·.2)))))

theorem load_inbox (c : Client) (count : Nat) :
    (c.load count).2.inbox =
      (c.receiver.gather (if count = 0 then none else some count) c.inbox).inbox := by
  rw [load_announces]
  split
  · rfl
  · rfl

theorem Plain.taken (plain : c.Plain) (count : Nat) :
    ∃ taken, c.inbox = taken ++ (c.load count).2.inbox ∧
      (c.load count).2.bundles = c.receiver.accepts taken ∧
      (c.load count).2.receiver = c.receiver.behind taken ∧
      (∀ front, front <+: taken → front ≠ taken →
        count = 0 ∨ (c.receiver.accepts front).length < count) ∧
      ((c.load count).2.inbox = [] ∨
        count ≠ 0 ∧ count ≤ (c.receiver.accepts taken).length) := by
  obtain ⟨taken, split, bundles, receiver, -⟩ := plain.guarded.load count
  have gathered : c.inbox = taken ++ _ := split.trans (congrArg (taken ++ ·) (c.load_inbox count))
  obtain ⟨short, enough⟩ := c.receiver.gather_shortest _ gathered
  rw [← load_inbox] at enough
  refine ⟨taken, split, bundles, receiver, fun front shorter other => ?_, enough.imp_right ?_⟩
  · by_cases all : count = 0
    · exact .inl all
    · exact .inr (short front shorter other count (by rw [if_neg all]; rfl))
  · rintro ⟨k, wanted, reached⟩
    split at wanted
    · simp at wanted
    · next some =>
      obtain rfl : count = k := Option.some.inj wanted
      exact ⟨some, reached⟩

theorem Plain.loads (plain : c.Plain) (count : Nat) :
    ∃ reply c', c.load count = (.ok reply, c') ∧ c.Loads count reply c' := by
  have returned : (Call.load count).Returns c :=
    plain.guarded.call_returns plain.acyclic (.load count)
  obtain ⟨reply, answered⟩ := returned
  have bundles : (c.load count).2.bundles = c.accepted count := plain.guarded.load_bundles count
  have quiet : Quiet [] c.purge (c.gathered count) := .gathered plain.guarded count
  have recorded (adaptors : List (Nat × Processor)) (recorder : Nat)
      (row : c.Row adaptors recorder) :
      (c.load count).2.chain.recorders[recorder]? = c.chain.recorders[recorder]?.map
        (·.told ((c.load count).2.bundles.filterMap (Processor.through (adaptors.map (·.2))))) := by
    have purged : c.purge.Row adaptors recorder := ⟨row.linked, row.apart⟩
    have spares : (Call.load count).Spares (rowOf adaptors recorder) := trivial
    rw [bundles]
    exact (purged.call plain.guarded spares).2 ⟨reply, answered⟩
  refine ⟨reply, _, Prod.ext answered rfl, plain.taken count, ?_,
    ⟨c.load_listeners count, plain.distinct⟩, ?_, ?_, recorded⟩
  · rw [bundles, c.load_answer answered]
    simp
  · rw [c.load_answer answered, load_announces]
    split
    · exact fun _ => ⟨quiet.adaptors, quiet.recorders⟩
    · next some => simp [some]
  · rw [c.load_answer answered, bundles, load_announces]
    split
    · next none => simp [none]
    · have back := (plain.acyclic.of_wiring quiet.wiring).notifyAll_returns quiet.guarded.copying
        (c.gathered count).stack c.listeners
      exact fun _ => ⟨(c.gathered count).chain, quiet.adaptors, quiet.recorders,
        c.gathered_bundles count, Prod.ext back rfl⟩

/-! ## Schedules -/

/-- The stacks of loads, and the client behind them. -/
def loads (c : Client) : List Nat → List (List Bundle) × Client
  | [] => ([], c)
  | count :: rest =>
    let c' := (c.load count).2
    (c'.bundles :: (c'.loads rest).1, (c'.loads rest).2)

theorem loads_concat (c : Client) (counts : List Nat) (count : Nat) :
    c.loads (counts ++ [count]) =
      let (shown, c') := c.loads counts
      (shown ++ [(c'.load count).2.bundles], (c'.load count).2) := by
  induction counts generalizing c with
  | nil => rfl
  | cons first counts ih => simp only [List.cons_append, loads, ih]

/-- Loads one behind the other take what they take from the inbox as one. -/
theorem Plain.loads_taken (plain : c.Plain) (counts : List Nat) :
    (c.loads counts).2.Plain ∧ ∃ taken, c.inbox = taken ++ (c.loads counts).2.inbox ∧
      (c.loads counts).1.flatten = c.receiver.accepts taken ∧
      (c.loads counts).2.receiver = c.receiver.behind taken := by
  induction counts generalizing c with
  | nil => exact ⟨plain, [], rfl, rfl, rfl⟩
  | cons count counts ih =>
    obtain ⟨taken, split, bundles, receiver, -⟩ := plain.taken count
    obtain ⟨plain', taken', split', bundles', receiver'⟩ := ih (plain.load count)
    refine ⟨plain', taken ++ taken', ?_, ?_, ?_⟩
    · rw [split, List.append_assoc]
      exact congrArg (taken ++ ·) split'
    · rw [Receiver.accepts_append, ← bundles, ← receiver]
      exact congrArg (_ ++ ·) bundles'
    · rw [Receiver.behind_append, ← receiver]
      exact receiver'

/-- A schedule that ends with a load of all that is left comes to one load of everything. -/
theorem Plain.loads_all (plain : c.Plain) (counts : List Nat) :
    (c.loads (counts ++ [0])).1.flatten = c.receiver.accepts c.inbox ∧
      (c.loads (counts ++ [0])).2.receiver = c.receiver.behind c.inbox ∧
      (c.loads (counts ++ [0])).2.inbox = [] := by
  have emptied : (c.loads (counts ++ [0])).2.inbox = [] := by
    obtain ⟨_, _, _, _, _, none | some⟩ := ((plain.loads_taken counts).1).taken 0
    · rwa [loads_concat]
    · exact absurd rfl some.1
  obtain ⟨-, taken, split, bundles, receiver⟩ := plain.loads_taken (counts ++ [0])
  rw [emptied, List.append_nil] at split
  exact ⟨split ▸ bundles, split ▸ receiver, emptied⟩

/-- Each load of a schedule returns. It takes the shortest prefix of what is left that brings enough
bundles, and tells the listeners once if it accepted any. Behind a last load of everything the stacks
one behind the other are the stack of a single load, the inbox is empty, and the receiver with its
open bundle and its last frame id is the same. -/
theorem schedules_equivalent (plain : c.Plain) (counts : List Nat) :
    (∀ before count rest, counts ++ [0] = before ++ count :: rest →
      ∃ reply c', (c.loads before).2.load count = (.ok reply, c') ∧
        (c.loads before).2.Loads count reply c') ∧
    let (shown, last) := c.loads (counts ++ [0])
    ∃ reply single, c.load 0 = (.ok reply, single) ∧ shown.flatten = single.bundles ∧
      last.receiver = single.receiver ∧ last.inbox = [] ∧ single.inbox = [] := by
  refine ⟨fun before count _ _ => (plain.loads_taken before).1.loads count, ?_⟩
  obtain ⟨bundles, receiver, inbox⟩ := plain.loads_all counts
  obtain ⟨bundles', receiver', inbox'⟩ := plain.loads_all []
  obtain ⟨reply, single, returned, -⟩ := plain.loads 0
  simp only [loads, returned, List.nil_append, List.flatten_cons, List.flatten_nil,
    List.append_nil] at bundles' receiver' inbox'
  exact ⟨reply, single, returned, bundles.trans bundles'.symm, receiver.trans receiver'.symm, inbox,
    inbox'⟩

/-- A packet that cannot be decoded, a frame, a packet that closes it and completes another bundle, a
bundle in two packets, and another frame. A recorder and an adaptor listen. -/
def crowded : Client :=
  let message (address : String) : Osc.Packet := .message ⟨address, []⟩
  let frame (id : UInt32) : Osc.Message → Option Message := fun _ => some (.frame { id })
  { receiver.registry := Registry.defaults
      |>.bindConvertor "/1" (frame 1) |>.bindConvertor "/2" (frame 2)
      |>.bindConvertor "/3" (frame 3) |>.bindConvertor "/a" fun _ => some (.alive [])
    inbox :=
      [ [1], (message "/1").encode,
        (Osc.Packet.bundle Sample.time [message "/a", message "/2", message "/a"]).encode,
        (message "/3").encode, (message "/a").encode, (message "/1").encode ]
    listeners := ⟨[.recorder 0, .adaptor 0]⟩
    chain :=
      { adaptors := [{ processor := Sample.extraAlive, listeners := ⟨[.recorder 1]⟩ }]
        recorders := [{}, {}] } }

theorem crowded_plain : crowded.Plain := by
  refine ⟨by decide, List.forall_mem_singleton.mpr rfl, .of_rank id ?_⟩
  rintro (_ | p) q ⟨a, found, mem⟩
  · cases found
    simp at mem
  · cases found

theorem schedules_equivalent_crowded :
    let heard (id : UInt32) : Bundle := ⟨[.frame { id }, .alive []]⟩
    crowded.Plain ∧
      (crowded.loads [1, 1, 0]).1 = [[heard 1, heard 2], [heard 3], []] ∧
      (∃ reply single, crowded.load 0 = (.ok reply, single) ∧
        single.bundles = [heard 1, heard 2, heard 3] ∧
        single.receiver = (crowded.loads [1, 1, 0]).2.receiver) ∧
      ∃ first, crowded.load 1 = (.ok true, first) ∧ crowded.Loads 1 true first := by
  intro heard
  have shown : (crowded.loads [1, 1, 0]).1 = [[heard 1, heard 2], [heard 3], []] := by cbv
  have first : (crowded.load 1).1 = .ok true := by cbv
  obtain ⟨each, reply, single, returned, bundles, receiver, -⟩ :=
    schedules_equivalent crowded_plain [1, 1]
  obtain ⟨_, c', returned', loads⟩ := each [] 1 [1, 0] rfl
  simp only [Client.loads] at returned' loads
  rw [returned'] at first
  obtain rfl := Except.ok.inj first
  exact ⟨crowded_plain, shown, ⟨reply, single, returned,
    bundles.symm.trans (congrArg List.flatten shown), receiver.symm⟩, c', returned', loads⟩

end Client

end Tangible
