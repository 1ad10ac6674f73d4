import Tangible.Proofs.Network.Accepted
import Tangible.Proofs.Network.Ring

/-!
# What clients announce

A load announces the bundles that it accepted to the listeners of the client, unless it accepted
none (`Client.load_announces`). No other call tells anybody (`Client.Quiet.of_call`), so a call is
quiet or it tells of what is then on the stack (`Client.Guarded.call_cases`), and where no adaptor
leads back to itself all calls return (`Client.Guarded.returns`).

An adaptor that is told makes what its processor makes of the bundles, in order
(`Chain.shown_makes`).
-/

namespace Tangible

/-! ## What adaptors make -/

/-- What a processor makes of bundles. Those that it fails on are left out. -/
def Processor.makes (p : Processor) (bs : List Bundle) : List Bundle :=
  bs.filterMap fun b => (p.run b).toOption

theorem Processor.makes_cons (p : Processor) (b : Bundle) (rest : List Bundle) :
    p.makes (b :: rest) = (p.run b).toOption.toList ++ p.makes rest := by
  rw [makes, List.filterMap_cons]
  cases (p.run b).toOption with
  | none => rfl
  | some made => rfl

namespace Store

variable {s s' : Store} {cell : Cell}

theorem Holds.read (held : s.Holds [cell]) (grown : s.bundles <+: s'.bundles) :
    s'.read cell = s.read cell :=
  (List.cons.inj (held.map_read grown)).1

theorem bundles_add (s : Store) (b : Bundle) : (s.add b).2.bundles = s.bundles ++ [b] := rfl

theorem holds_add (s : Store) (b : Bundle) : (s.add b).2.Holds [(s.add b).1] := by
  simp [Holds, add]

theorem read_add (s : Store) (b : Bundle) : (s.add b).2.read (s.add b).1 = b := by
  simp [Store.read, add]

/-- A processor that writes into a new cell adds its output. -/
theorem process_add (s : Store) (p : Processor) {input : Cell} (held : s.Holds [input]) :
    (s.add {}).2.process p input (s.add {}).1 =
      ((p (s.read input) {}).result, (s.add (p (s.read input) {}).output).2) := by
  have kept : (s.add {}).2.read input = s.read input := held.read (List.prefix_append ..)
  rw [process, kept, read_add]
  simp [add, write]

end Store

namespace Adaptor

variable {a : Adaptor} {s : Store} {input : Cell} {b : Bundle}

theorem transform_ok (copying : a.inPlace = false) (held : s.Holds [input])
    (ran : a.processor (s.read input) {} = .ok b) (rest : List Cell) :
    a.transform s (input :: rest) =
      ((s.add b).1 :: (a.transform (s.add b).2 rest).1, (a.transform (s.add b).2 rest).2) := by
  simp only [transform, copying, Bool.false_eq_true, if_false, s.process_add a.processor held, ran]
  rfl

theorem transform_fail (copying : a.inPlace = false) (held : s.Holds [input]) {e : Error}
    (ran : a.processor (s.read input) {} = .fail b e) (rest : List Cell) :
    a.transform s (input :: rest) = a.transform (s.add b).2 rest := by
  simp only [transform, copying, Bool.false_eq_true, if_false, s.process_add a.processor held, ran]
  rfl

/-- An adaptor that does not write in place shows what its processor makes of the bundles, in their
order. -/
theorem transform_makes (copying : a.inPlace = false) {stack : List Cell} (held : s.Holds stack) :
    (a.transform s stack).2.Holds (a.transform s stack).1 ∧
      (a.transform s stack).1.map (a.transform s stack).2.read =
        a.processor.makes (stack.map s.read) := by
  induction stack generalizing s with
  | nil => exact ⟨List.forall_mem_nil _, rfl⟩
  | cons input rest ih =>
    have here : s.Holds [input] := List.forall_mem_singleton.mpr (held input List.mem_cons_self)
    have behind : s.Holds rest := fun cell mem => held cell (List.mem_cons_of_mem _ mem)
    cases ran : a.processor (s.read input) {} with
    | mk b result =>
      obtain ⟨names, makes⟩ := ih (behind.grow (s.bundles_add b ▸ List.prefix_append ..))
      rw [behind.map_read (s.bundles_add b ▸ List.prefix_append ..)] at makes
      rw [List.map_cons, Processor.makes_cons, Processor.run, ran, ← makes]
      cases result with
      | error e =>
        rw [transform_fail copying here ran]
        exact ⟨names, rfl⟩
      | ok =>
        have later := a.transform_grows copying (s.add b).2 rest
        have own := s.holds_add b
        rw [transform_ok copying here ran, List.map_cons, own.read later, s.read_add]
        exact ⟨List.forall_mem_cons.mpr ⟨own.grow later _ (List.mem_singleton_self _), names⟩, rfl⟩

end Adaptor

theorem Chain.shown_makes {c : Chain} {place : Nat} {a : Adaptor}
    (found : c.adaptors[place]? = some a) (copying : c.Copying) {stack : List Cell}
    (held : c.store.Holds stack) :
    (c.shown place a stack).2.store.Holds (c.shown place a stack).1 ∧
      (c.shown place a stack).2.bundles (c.shown place a stack).1 =
        a.processor.makes (c.bundles stack) :=
  a.transform_makes (copying a (List.mem_of_getElem? found)) held

/-! ## What clients tell -/

namespace Client

variable {c c' : Client}

/-- The bundles that a load accepts. -/
def accepted (c : Client) (count : Nat) : List Bundle :=
  (c.receiver.gather (if count = 0 then none else some count) c.inbox).bundles

/-- The client that has gathered its bundles and told nobody. -/
def gathered (c : Client) (count : Nat) : Client :=
  let gathered := c.receiver.gather (if count = 0 then none else some count) c.inbox
  { c with receiver := gathered.receiver, inbox := gathered.inbox }.purge.pushAll gathered.bundles

/-- A load tells the listeners of what it accepted, if that is anything. -/
theorem load_announces (c : Client) (count : Nat) :
    c.load count =
      if (c.accepted count).isEmpty then (.ok false, c.gathered count)
      else
        let (result, c) := (c.gathered count).notifyAll
        (result.map fun () => true, c) :=
  rfl

/-- A load that returns says whether it accepted anything. -/
theorem load_answer (c : Client) {count : Nat} {told : Bool}
    (returned : (c.load count).1 = .ok told) : told = !(c.accepted count).isEmpty := by
  rw [load_announces] at returned
  split at returned
  · next none =>
    rw [none]
    exact (Except.ok.inj returned).symm
  · next some =>
    generalize (c.gathered count).notifyAll = outcome at returned
    obtain ⟨result, c'⟩ := outcome
    rw [Bool.eq_false_iff.mpr some]
    cases result with
    | error e => cases returned
    | ok => exact (Except.ok.inj returned).symm

theorem gathered_bundles (c : Client) (count : Nat) :
    (c.gathered count).bundles = c.accepted count :=
  bundles_pushAll rfl _

/-- The call attaches and detaches no listener of the row. -/
def Call.Spares (row : List Listener) : Call → Prop
  | .attach l | .detach l => l ∉ row
  | _ => True

theorem Call.spares_nil (call : Call) : call.Spares [] := by
  cases call <;> simp [Spares]

/-- Nobody has been told of anything: the stacks and recorders behind the client are as they were,
and so are all bundles and those of the row who listen to the client. -/
structure Quiet (row : List Listener) (c c' : Client) : Prop where
  guarded : c'.Guarded
  adaptors : c'.chain.adaptors = c.chain.adaptors
  recorders : c'.chain.recorders = c.chain.recorders
  store : c.chain.store.bundles <+: c'.chain.store.bundles
  listeners : c'.listeners.members.filter (· ∈ row) = c.listeners.members.filter (· ∈ row)

namespace Quiet

variable {row : List Listener}

theorem of_chain (guarded : c.Guarded) (chain : c'.chain = c.chain) (stack : c'.stack ⊆ c.stack)
    (listeners : c'.listeners.members.filter (· ∈ row) = c.listeners.members.filter (· ∈ row)) :
    Quiet row c c' where
  guarded := by
    refine ⟨?_, chain ▸ guarded.copying⟩
    rw [chain]
    exact fun cell mem => guarded.held cell (stack mem)
  adaptors := congrArg (·.adaptors) chain
  recorders := congrArg (·.recorders) chain
  store := chain ▸ List.prefix_rfl
  listeners := listeners

theorem refl (guarded : c.Guarded) : Quiet row c c :=
  of_chain guarded rfl (List.Subset.refl _) rfl

theorem trans {d : Client} (first : Quiet row c c') (second : Quiet row c' d) : Quiet row c d :=
  ⟨second.guarded, second.adaptors.trans first.adaptors, second.recorders.trans first.recorders,
    first.store.trans second.store, second.listeners.trans first.listeners⟩

theorem wiring (quiet : Quiet row c c') : c'.chain.wiring = c.chain.wiring :=
  congrArg (·.map Adaptor.unloaded) quiet.adaptors

theorem pushAll (guarded : c.Guarded) (bs : List Bundle) : Quiet row c (c.pushAll bs) :=
  ⟨guarded.pushAll bs, rfl, rfl, Store.bundles_addAll _ _ ▸ List.prefix_append .., rfl⟩

theorem gathered (guarded : c.Guarded) (count : Nat) : Quiet row c (c.gathered count) := by
  let taken := c.receiver.gather (if count = 0 then none else some count) c.inbox
  have emptied : Quiet row c { c with receiver := taken.receiver, inbox := taken.inbox }.purge :=
    of_chain guarded rfl (List.nil_subset _) rfl
  exact emptied.trans (pushAll emptied.guarded _)

theorem attach (guarded : c.Guarded) {l : Listener} (outside : l ∉ row) :
    Quiet row c (c.attach l) := by
  refine of_chain guarded rfl (List.Subset.refl _) ?_
  simp only [Client.attach, Listeners.add]
  split
  · rfl
  · simp [outside]

theorem detach (guarded : c.Guarded) {l : Listener} (outside : l ∉ row) :
    Quiet row c (c.detach l) := by
  refine of_chain guarded rfl (List.Subset.refl _) ?_
  simp only [Client.detach, Listeners.remove, List.filter_filter]
  refine List.filter_congr fun other _ => ?_
  have differ : other ∈ row → other ≠ l := fun mem same => outside (same ▸ mem)
  by_cases mem : other ∈ row
  · simp [mem, differ mem]
  · simp [mem]

/-- Only loads tell anybody. -/
theorem of_call (guarded : c.Guarded) {call : Call} (quiet : ∀ count, call ≠ .load count)
    (spares : call.Spares row) : Quiet row c (c.call call) := by
  cases call with
  | load count => exact absurd rfl (quiet count)
  | process packet =>
    cases decoded : c.receiver.messages? packet with
    | error e =>
      simp only [Client.call, process_error (Receiver.messages?_eq_error_iff.mp decoded)]
      exact refl guarded
    | ok messages =>
      simp only [Client.call, process_eq decoded]
      have fed : Quiet row c { c with
          receiver.assembly := (c.receiver.assembly.feedAll messages).2 } :=
        of_chain guarded rfl (List.Subset.refl _) rfl
      exact fed.trans (pushAll fed.guarded _)
  | take place =>
    simp only [Client.call, take?, Stack.take?]
    cases c.stack[place]? with
    | none => exact refl guarded
    | some cell => exact of_chain guarded rfl (List.drop_subset ..) rfl
  | latest =>
    simp only [Client.call, latest?, Stack.latest?]
    cases c.stack.getLast? with
    | none => exact refl guarded
    | some cell => exact of_chain guarded rfl (List.nil_subset _) rfl
  | purge => exact of_chain guarded rfl (List.nil_subset _) rfl
  | deliver packet => exact of_chain guarded rfl (List.Subset.refl _) rfl
  | registry change => exact of_chain guarded rfl (List.Subset.refl _) rfl
  | acceptUnknown accept => exact of_chain guarded rfl (List.Subset.refl _) rfl
  | attach l => exact attach guarded spares
  | detach l => exact detach guarded spares

end Quiet

namespace Guarded

/-- The client shows what it accepted, whatever its listeners do. -/
theorem load_bundles (guarded : c.Guarded) (count : Nat) :
    (c.load count).2.bundles = c.accepted count := by
  have gathered : Quiet [] c (c.gathered count) := .gathered guarded count
  rw [load_announces]
  split
  · exact c.gathered_bundles count
  · exact gathered.guarded.notifyAll.2.trans (c.gathered_bundles count)

theorem load_store (guarded : c.Guarded) (count : Nat) :
    c.chain.store.bundles <+: (c.load count).2.chain.store.bundles := by
  have gathered : Quiet [] c (c.gathered count) := .gathered guarded count
  rw [load_announces]
  split
  · exact gathered.store
  · exact gathered.store.trans gathered.guarded.notifyAll_kept.store

end Guarded

/-! ## Runs -/

/-- What a call makes the client announce. -/
def announced (c : Client) : Call → List Bundle
  | .load count => c.accepted count
  | _ => []

/-- Only a load may fail to come back. -/
def Call.Returns (c : Client) : Call → Prop
  | .load count => ∃ told, (c.load count).1 = .ok told
  | _ => True

/-- A call tells nobody and returns, or it tells the listeners of the bundles that are then on the
stack, and returns if they do. -/
theorem Guarded.call_cases {row : List Listener} (guarded : c.Guarded) {call : Call}
    (spares : call.Spares row) :
    (c.announced call = [] ∧ Quiet row c (c.call call) ∧ call.Returns c) ∨
      (c.announced call ≠ [] ∧ ∃ c', Quiet row c c' ∧ c'.bundles = c.announced call ∧
        c.call call = c'.notifyAll.2 ∧ (call.Returns c ↔ c'.notifyAll.1 = .ok ())) := by
  by_cases isLoad : ∃ count, call = .load count
  · obtain ⟨count, rfl⟩ := isLoad
    have quiet : Quiet row c (c.gathered count) := .gathered guarded count
    rw [Client.call, Call.Returns, load_announces, announced]
    split
    · next none => exact .inl ⟨List.isEmpty_iff.mp none, quiet, false, rfl⟩
    · next some =>
      refine .inr ⟨mt List.isEmpty_iff.mpr some, _, quiet, c.gathered_bundles count, rfl, ?_⟩
      obtain ⟨result, _⟩ := (c.gathered count).notifyAll
      cases result with
      | error e => simp [Except.map]
      | ok => simp [Except.map]
  · have nothing : c.announced call = [] := by
      cases call with
      | load count => exact absurd ⟨count, rfl⟩ isLoad
      | _ => rfl
    have back : call.Returns c := by
      cases call with
      | load count => exact absurd ⟨count, rfl⟩ isLoad
      | _ => trivial
    exact .inl ⟨nothing, .of_call guarded (fun count same => isLoad ⟨count, same⟩) spares, back⟩

/-- No call changes who listens to whom behind the client. -/
theorem Guarded.call_wiring (guarded : c.Guarded) (call : Call) :
    (c.call call).chain.wiring = c.chain.wiring := by
  obtain ⟨-, quiet, -⟩ | ⟨-, c', quiet, -, told, -⟩ := guarded.call_cases call.spares_nil
  · exact quiet.wiring
  · rw [told]
    exact (Chain.notifyAll_wiring quiet.guarded.copying _ _).trans quiet.wiring

/-- The announcements of a run, call by call. -/
def announcements (c : Client) : List Call → List (List Bundle)
  | [] => []
  | call :: rest => c.announced call :: (c.call call).announcements rest

/-- The client behind a run. -/
def after (c : Client) (calls : List Call) : Client := calls.foldl call c

/-- All calls of a run come back. -/
def Returns (c : Client) : List Call → Prop
  | [] => True
  | call :: rest => call.Returns c ∧ (c.call call).Returns rest

/-- Where no adaptor leads back to itself a call comes back. -/
theorem Guarded.call_returns (guarded : c.Guarded) (acyclic : c.chain.Acyclic) (call : Call) :
    call.Returns c := by
  obtain ⟨-, -, back⟩ | ⟨-, c', quiet, -, -, back⟩ := guarded.call_cases call.spares_nil
  · exact back
  · exact back.mpr ((acyclic.of_wiring quiet.wiring).notifyAll_returns quiet.guarded.copying _ _)

theorem Guarded.call (guarded : c.Guarded) (call : Call) : (c.call call).Guarded := by
  obtain ⟨-, quiet, -⟩ | ⟨-, c', quiet, -, told, -⟩ := guarded.call_cases call.spares_nil
  · exact quiet.guarded
  · exact told ▸ quiet.guarded.notifyAll.1

theorem Guarded.returns (guarded : c.Guarded) (acyclic : c.chain.Acyclic) (calls : List Call) :
    c.Returns calls ∧ (c.after calls).Guarded ∧ (c.after calls).chain.Acyclic := by
  induction calls generalizing c with
  | nil => exact ⟨trivial, guarded, acyclic⟩
  | cons call rest ih =>
    obtain ⟨later, ends⟩ := ih (guarded.call call) (acyclic.of_wiring (guarded.call_wiring call))
    exact ⟨⟨guarded.call_returns acyclic call, later⟩, ends⟩

theorem Guarded.load_returns (guarded : c.Guarded) (calls : List Call) (acyclic : c.chain.Acyclic) :
    c.Returns calls ∧ ∀ count, ∃ told, ((c.after calls).load count).1 = .ok told := by
  obtain ⟨returned, guarded', acyclic'⟩ := guarded.returns acyclic calls
  exact ⟨returned, fun count => guarded'.call_returns acyclic' (.load count)⟩

end Client

end Tangible
