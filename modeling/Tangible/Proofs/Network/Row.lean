import Tangible.Bundle.Sample
import Tangible.Proofs.Network.Announcement

/-!
# Adaptors in a row

A client tells an adaptor, this one tells the next one, and so on up to a recorder behind the last
one. Others may listen too, as long as they do not lead into the row (`Client.Row`).

What reaches the recorder of one announcement is what the processors make of it one behind the other
(`Chain.Linked.tellEach`): if an adaptor makes nothing, nobody behind it is told, and what it shows
is empty. So over a run the recorder is told of every announcement that passes the whole row, once
and of nothing else, and whatever the stacks in the row hold from earlier announcements does not
matter (`Client.row_composes`). All this is so while loads return, which they do unless an adaptor
somewhere behind the client leads back to itself.
-/

namespace Tangible

/-- What processors one behind the other make of a bundle. -/
def Processor.through : List Processor → Bundle → Option Bundle
  | [], b => some b
  | p :: ps, b => (p.run b).toOption.bind (through ps)

theorem Processor.filterMap_through_nil (bs : List Bundle) : bs.filterMap (through []) = bs :=
  List.filterMap_some

theorem Processor.filterMap_through_cons (p : Processor) (ps : List Processor)
    (bs : List Bundle) :
    bs.filterMap (through (p :: ps)) = (p.makes bs).filterMap (through ps) := by
  rw [makes, List.filterMap_filterMap]
  rfl

/-- A recorder that is told of bundles, if there are any. -/
def Recorder.told (r : Recorder) (shown : List Bundle) : Recorder :=
  if shown.isEmpty then r else r.record shown

namespace Chain

variable {c c' : Chain} {row told : List Listener} {adaptors : List (Nat × Processor)}
  {recorder : Nat}

/-- Adaptors with their processors one behind the other, and a recorder behind the last one. Of
those that a source tells, only the next one is in the row. -/
def Linked (c : Chain) (row : List Listener) :
    (told : List Listener) → (adaptors : List (Nat × Processor)) → (recorder : Nat) → Prop
  | told, [], recorder => told.filter (· ∈ row) = [.recorder recorder]
  | told, (place, p) :: rest, recorder =>
    told.filter (· ∈ row) = [.adaptor place] ∧
      ∃ a, c.adaptors[place]? = some a ∧ a.processor = p ∧
        c.Linked row a.listeners.members rest recorder

theorem mem_of_once {l : Listener} (once : told.filter (· ∈ row) = [l]) : l ∈ row := by
  have mem : l ∈ told.filter (· ∈ row) := once ▸ List.mem_singleton_self l
  exact of_decide_eq_true (List.mem_filter.mp mem).2

namespace Linked

theorem recorder_mem (linked : c.Linked row told adaptors recorder) : .recorder recorder ∈ row := by
  induction adaptors generalizing told with
  | nil => exact mem_of_once linked
  | cons adaptor rest ih =>
    obtain ⟨-, a, -, -, linked⟩ := linked
    exact ih linked

theorem of_wiring (linked : c.Linked row told adaptors recorder) (same : c'.wiring = c.wiring) :
    c'.Linked row told adaptors recorder := by
  induction adaptors generalizing told with
  | nil => exact linked
  | cons adaptor rest ih =>
    obtain ⟨place, p⟩ := adaptor
    obtain ⟨once, a, found, rfl, linked⟩ := linked
    obtain ⟨a', found', alike⟩ := exists_of_wiring same found
    have listeners : a'.listeners = a.listeners := congrArg (·.listeners) alike
    have processor : a'.processor = a.processor := congrArg (·.processor) alike
    exact ⟨once, a', found', processor, listeners ▸ ih linked⟩

/-- Of a stack that a source shows, the recorder behind the row is told what passes all
processors. -/
theorem tellEach (linked : c.Linked row told adaptors recorder) (copying : c.Copying)
    (apart : c.Apart row) {stack : List Cell} (held : c.store.Holds stack) (some : stack ≠ [])
    {depth : Nat} {busy : List Nat}
    (returned : (Chain.tellEach (notifyWithin depth busy stack) told c).1 = .ok ()) :
    (Chain.tellEach (notifyWithin depth busy stack) told c).2.recorders[recorder]? =
      c.recorders[recorder]?.map
        (·.told ((c.bundles stack).filterMap (Processor.through (adaptors.map (·.2))))) := by
  induction adaptors generalizing c told stack depth busy with
  | nil =>
    obtain ⟨before, kept, -, after⟩ := tellEach_once linked copying apart returned
    have shown : before.bundles stack = c.bundles stack := held.map_read kept.store
    have full : (c.bundles stack).isEmpty = false := by simp [bundles, some]
    rw [after.recorder recorder (mem_of_once linked), ← kept.recorder recorder (mem_of_once linked)]
    simp [notifyWithin_recorder, modifyRecorder, shown, Recorder.told,
      Processor.filterMap_through_nil, full]
  | cons adaptor rest ih =>
    obtain ⟨place, p⟩ := adaptor
    obtain ⟨once, a, found, rfl, linked⟩ := linked
    obtain ⟨before, kept, back, after⟩ := tellEach_once once copying apart returned
    have copying := kept.copying copying
    have found := (kept.adaptor _ (mem_of_once once)).trans found
    obtain ⟨names, makes⟩ := shown_makes found copying (held.grow kept.store)
    have bundles : before.bundles stack = c.bundles stack := held.map_read kept.store
    have next : before.Kept [] (before.shown place a stack).2 :=
      shown_kept found copying List.not_mem_nil stack
    obtain ⟨depth', busy', tells⟩ := notifyWithin_returned found back
    rw [tells] at back
    rw [after.recorder recorder linked.recorder_mem, tells,
      ← kept.recorder recorder linked.recorder_mem, List.map_cons,
      Processor.filterMap_through_cons, ← bundles, ← makes]
    have recorders : (before.shown place a stack).2.recorders = before.recorders := rfl
    generalize before.shown place a stack = outcome at *
    obtain ⟨made, shown⟩ := outcome
    dsimp only at *
    -- the next one is told unless nothing was made, and then nothing passes either
    split at back
    · next nothing =>
      rw [if_pos nothing]
      rw [List.isEmpty_iff] at nothing
      simp [nothing, Chain.bundles, Recorder.told, recorders]
    · next something =>
      have same := next.wiring.trans kept.wiring
      rw [if_neg something, ih (linked.of_wiring same) (next.copying copying)
        (apart.of_wiring same) names (mt List.isEmpty_iff.mpr something) back, recorders]

end Linked

end Chain

namespace Client

variable {c c' : Client} {adaptors : List (Nat × Processor)} {recorder : Nat}

/-- Adaptors and the recorder behind the last one. -/
def rowOf (adaptors : List (Nat × Processor)) (recorder : Nat) : List Listener :=
  adaptors.map (.adaptor ·.1) ++ [.recorder recorder]

/-- The client tells the first adaptor, every adaptor tells the next one, the last one tells the
recorder, and nobody else tells any of them. -/
structure Row (c : Client) (adaptors : List (Nat × Processor)) (recorder : Nat) : Prop where
  linked : c.chain.Linked (rowOf adaptors recorder) c.listeners.members adaptors recorder
  apart : c.chain.Apart (rowOf adaptors recorder)

namespace Row

theorem congr (row : c.Row adaptors recorder)
    (listeners : c'.listeners.members.filter (· ∈ rowOf adaptors recorder) =
      c.listeners.members.filter (· ∈ rowOf adaptors recorder))
    (wiring : c'.chain.wiring = c.chain.wiring) : c'.Row adaptors recorder where
  linked := by
    have linked := row.linked.of_wiring wiring
    cases adaptors with
    | nil => exact listeners.trans linked
    | cons adaptor rest => exact ⟨listeners.trans linked.1, linked.2⟩
  apart := row.apart.of_wiring wiring

theorem of_quiet (row : c.Row adaptors recorder) (quiet : Quiet (rowOf adaptors recorder) c c') :
    c'.Row adaptors recorder :=
  row.congr quiet.listeners quiet.wiring

/-- The listeners are told of a stack that is not empty. -/
theorem notifyAll (row : c.Row adaptors recorder) (guarded : c.Guarded) (some : c.bundles ≠ []) :
    c.notifyAll.2.Row adaptors recorder ∧
      (c.notifyAll.1 = .ok () → c.notifyAll.2.chain.recorders[recorder]? =
        c.chain.recorders[recorder]?.map
          (·.told (c.bundles.filterMap (Processor.through (adaptors.map (·.2)))))) := by
  have wiring := Chain.notifyAll_wiring guarded.copying c.stack c.listeners
  refine ⟨row.congr rfl wiring, fun returned => ?_⟩
  refine row.linked.tellEach guarded.copying row.apart guarded.held (fun empty => ?_) returned
  exact some (congrArg c.chain.bundles empty)

/-- After every call the row is there, and if the call returned, the recorder was told of the
announcement. -/
theorem call (row : c.Row adaptors recorder) (guarded : c.Guarded) {call : Call}
    (spares : call.Spares (rowOf adaptors recorder)) :
    (c.call call).Row adaptors recorder ∧
      (call.Returns c → (c.call call).chain.recorders[recorder]? =
        c.chain.recorders[recorder]?.map
          (·.told ((c.announced call).filterMap (Processor.through (adaptors.map (·.2)))))) := by
  obtain ⟨none, quiet, -⟩ | ⟨some, c', quiet, bundles, told, back⟩ := guarded.call_cases spares
  · refine ⟨row.of_quiet quiet, fun _ => ?_⟩
    rw [none, quiet.recorders]
    exact Option.map_id'.symm
  · obtain ⟨row', recorded⟩ := (row.of_quiet quiet).notifyAll quiet.guarded (bundles ▸ some)
    rw [told]
    refine ⟨row', fun returned => ?_⟩
    rw [recorded (back.mp returned), quiet.recorders, bundles]

/-- Over a run the recorder is told of one announcement after the other. -/
theorem run (row : c.Row adaptors recorder) (guarded : c.Guarded) {calls : List Call}
    (spares : ∀ call ∈ calls, call.Spares (rowOf adaptors recorder)) (returned : c.Returns calls) :
    (c.after calls).Guarded ∧ (c.after calls).Row adaptors recorder ∧
      (c.after calls).chain.recorders[recorder]? =
        c.chain.recorders[recorder]?.map fun r =>
          (c.announcements calls).foldl
            (fun r bs => r.told (bs.filterMap (Processor.through (adaptors.map (·.2))))) r := by
  induction calls generalizing c with
  | nil => exact ⟨guarded, row, Option.map_id'.symm⟩
  | cons call rest ih =>
    obtain ⟨here, spares⟩ := List.forall_mem_cons.mp spares
    obtain ⟨row', recorded⟩ := row.call guarded here
    obtain ⟨guarded', row'', recorded'⟩ := ih row' (guarded.call call) spares returned.2
    refine ⟨guarded', row'', recorded'.trans ?_⟩
    rw [recorded returned.1, Option.map_map]
    rfl

end Row

/-- In every run whose loads return, the recorder behind a row of adaptors is told once of each
announcement of which something passes all processors, and of nothing else: it sees the bundles that
a load accepted, in order, as the processors one behind the other make them, without those on which
one of them fails. The client shows the accepted bundles, and no bundle that anybody holds has
changed. Loads return where no adaptor leads back to itself. -/
theorem row_composes (guarded : c.Guarded) (row : c.Row adaptors recorder) {calls : List Call}
    (spares : ∀ call ∈ calls, call.Spares (rowOf adaptors recorder)) :
    let passed (bs : List Bundle) := bs.filterMap (Processor.through (adaptors.map (·.2)))
    let c' := c.after calls
    (c.chain.Acyclic → c.Returns calls ∧ ∀ count, ∃ told, (c'.load count).1 = .ok told) ∧
      (c.Returns calls →
        c'.chain.recorders[recorder]? = c.chain.recorders[recorder]?.map (fun r =>
          (c.announcements calls).foldl (fun r bs => r.told (passed bs)) r) ∧
        ∀ count told c'', c'.load count = (.ok told, c'') →
          let accepted := c'.accepted count
          c''.bundles = accepted ∧ c'.chain.store.bundles <+: c''.chain.store.bundles ∧
            c''.chain.recorders[recorder]? = c'.chain.recorders[recorder]?.map fun r =>
              if (passed accepted).isEmpty then r else r.record (passed accepted)) := by
  intro passed c'
  refine ⟨guarded.load_returns calls, fun returned => ?_⟩
  obtain ⟨guarded', row', recorded⟩ := row.run guarded spares returned
  refine ⟨recorded, fun count told c'' loads => ?_⟩
  have spares : (Call.load count).Spares (rowOf adaptors recorder) := trivial
  have recorded' := (row'.call guarded' spares).2 ⟨told, congrArg Prod.fst loads⟩
  obtain rfl : (c'.load count).2 = c'' := congrArg Prod.snd loads
  exact ⟨guarded'.load_bundles count, guarded'.load_store count, recorded'⟩

/-- Two adaptors in a row, the first of which refuses odd frames, and a recorder behind them. -/
def relay : Client where
  listeners := ⟨[.adaptor 0]⟩
  chain :=
    { adaptors :=
        [ { processor := Sample.refuseOdd, listeners := ⟨[.adaptor 1]⟩ },
          { processor := Sample.extraAlive, listeners := ⟨[.recorder 0]⟩ } ]
      recorders := [{}] }

/-- An even and an odd frame in one load, an odd one alone in the next, and nothing in the last. -/
def relayed : List Call :=
  let packet (address : String) : Datagram := Osc.Message.encode ⟨address, []⟩
  let frame (address : String) (id : UInt32) : Call :=
    .registry fun r => r.bindConvertor address fun _ => some (.frame { id })
  [ frame "/1" 1, frame "/2" 2, frame "/3" 3,
    .registry fun r => r.bindConvertor "/a" fun _ => some (.alive [3]),
    .deliver (packet "/1"), .deliver (packet "/a"), .deliver (packet "/2"), .deliver (packet "/a"),
    .load 0, .deliver (packet "/3"), .deliver (packet "/a"), .load 0, .load 0 ]

theorem relay_guarded : relay.Guarded :=
  ⟨List.forall_mem_nil _, by simp [Chain.Copying, relay]⟩

theorem relay_row : relay.Row [(0, Sample.refuseOdd), (1, Sample.extraAlive)] 0 := by
  refine ⟨⟨rfl, _, rfl, rfl, rfl, _, rfl, rfl, rfl⟩, fun place a found outside => ?_⟩
  have inside : place < 2 := (List.getElem?_eq_some_iff.mp found).1
  have listed : place = 0 ∨ place = 1 := by omega
  rcases listed with rfl | rfl
  · exact absurd (by decide) outside
  · exact absurd (by decide) outside

theorem relay_acyclic : relay.chain.Acyclic := by
  refine .of_rank (2 - ·) ?_
  rintro (_ | _ | p) q ⟨a, found, mem⟩
  · cases found
    simp at mem
    omega
  · cases found
    simp at mem
  · cases found

theorem row_composes_relay :
    relay.Guarded ∧ relay.Row [(0, Sample.refuseOdd), (1, Sample.extraAlive)] 0 ∧
      relay.Returns relayed ∧
      ((relay.after relayed).chain.recorders[0]?.map fun r => (r.notifications, r.bundles)) =
        some (1, [⟨[.frame { id := 2 }, .alive [3], .alive []]⟩]) := by
  have spares : ∀ call ∈ relayed,
      call.Spares (rowOf [(0, Sample.refuseOdd), (1, Sample.extraAlive)] 0) := by
    simp [relayed, Call.Spares]
  obtain ⟨returns, composes⟩ := row_composes relay_guarded relay_row spares
  have returned := (returns relay_acyclic).1
  refine ⟨relay_guarded, relay_row, returned, ?_⟩
  rw [(composes returned).1]
  have announced : relay.announcements relayed =
      let heard (id : UInt32) : Bundle := ⟨[.frame { id }, .alive [3]]⟩
      [[], [], [], [], [], [], [], [], [heard 1, heard 2], [], [], [heard 3], []] := by
    cbv
  rw [announced]
  rfl

end Client

end Tangible
