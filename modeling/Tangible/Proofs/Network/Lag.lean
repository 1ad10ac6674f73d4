import Tangible.Bundle.Sample
import Tangible.Proofs.Network.Announcement

/-!
# Adaptors show the last announcement

An adaptor that listens to a client shows what its processor makes of the bundles that the client
announced last (`Chain.notifyWithin_shows`). A load that accepts nothing announces nothing: it
empties the stack of the client, and the adaptor shows what it showed before.

So the adaptor shows what it makes of the client's bundles behind exactly those loads that accept
something, and behind those that do not as long as it has nothing to show
(`Client.shows_last_announcement`). In general it does not (`Client.gone_bundle_still_shown`). All
this is about loads that return, as they do unless an adaptor somewhere behind the client leads back
to itself.
-/

namespace Tangible

namespace Chain

variable {c : Chain} {place : Nat} {a : Adaptor}

/-- What the adaptor at a place shows. -/
def shownBy (c : Chain) (place : Nat) : List Bundle :=
  match c.adaptors[place]? with
  | none => []
  | some a => c.bundles a.stack

theorem shown_adaptor (found : c.adaptors[place]? = some a) (stack : List Cell) :
    (c.shown place a stack).2.adaptors[place]? =
      some { a with stack := (c.shown place a stack).1 } := by
  simp [shown, modifyAdaptor, found]

/-- An adaptor that is told shows what its processor makes, and what it tells those behind it does
not change that. -/
theorem notifyWithin_shows (found : c.adaptors[place]? = some a) (copying : c.Copying)
    (apart : c.Apart [.adaptor place]) (own : .adaptor place ∉ a.listeners.members)
    {stack : List Cell} (held : c.store.Holds stack) {depth : Nat} {busy : List Nat}
    (returned : (notifyWithin depth busy stack (.adaptor place) c).1 = .ok ()) :
    let c' := (notifyWithin depth busy stack (.adaptor place) c).2
    ∃ made, c'.adaptors[place]? = some { a with stack := made } ∧ c'.store.Holds made ∧
      c'.bundles made = a.processor.makes (c.bundles stack) := by
  intro c'
  obtain ⟨names, makes⟩ := shown_makes found copying held
  have here := shown_adaptor found stack
  have next : c.Kept [] (c.shown place a stack).2 :=
    shown_kept found copying List.not_mem_nil stack
  obtain ⟨depth', busy', tells⟩ := notifyWithin_returned found returned
  simp only [c', tells]
  generalize c.shown place a stack = outcome at *
  obtain ⟨made, shown⟩ := outcome
  dsimp only at *
  split
  · exact ⟨made, here, names, makes⟩
  · -- those behind the adaptor do not lead back to it
    have outside : ∀ l ∈ a.listeners.members, l ∉ [.adaptor place] :=
      fun l mem same => own (List.mem_singleton.mp same ▸ mem)
    have behind : shown.Kept [.adaptor place]
        (tellEach (notifyWithin depth' busy' made) a.listeners.members shown).2 :=
      tellEach_kept (fun l _ => notifyWithin_kept depth' busy' made l) (next.copying copying)
        (apart.of_wiring next.wiring) outside
    refine ⟨made, ?_, names.grow behind.store, (names.map_read behind.store).trans makes⟩
    exact (behind.adaptor place (List.mem_singleton_self _)).trans here

end Chain

namespace Client

variable {c c' : Client} {place : Nat} {p : Processor}

/-- The adaptor at a place listens to the client and to nobody else, itself included. -/
structure Listens (c : Client) (place : Nat) (p : Processor) : Prop where
  once : c.listeners.members.filter (· ∈ [.adaptor place]) = [.adaptor place]
  apart : c.chain.Apart [.adaptor place]
  there : ∃ a, c.chain.adaptors[place]? = some a ∧ a.processor = p ∧
    .adaptor place ∉ a.listeners.members ∧ c.chain.store.Holds a.stack

namespace Listens

/-- A client that tells nobody leaves the adaptor alone. -/
theorem of_quiet (listens : c.Listens place p) (quiet : Quiet [.adaptor place] c c') :
    c'.Listens place p ∧ c'.chain.shownBy place = c.chain.shownBy place := by
  obtain ⟨once, apart, a, found, processor, own, held⟩ := listens
  have found' : c'.chain.adaptors[place]? = some a := quiet.adaptors ▸ found
  refine ⟨⟨quiet.listeners.trans once, ?_, a, found', processor, own, held.grow quiet.store⟩, ?_⟩
  · exact apart.of_wiring quiet.wiring
  · rw [Chain.shownBy, Chain.shownBy, found, found']
    exact held.map_read quiet.store

theorem notifyAll (listens : c.Listens place p) (guarded : c.Guarded)
    (returned : c.notifyAll.1 = .ok ()) :
    c.notifyAll.2.Listens place p ∧ c.notifyAll.2.chain.shownBy place = p.makes c.bundles := by
  obtain ⟨once, apart, a, found, rfl, own, -⟩ := listens
  have wiring := Chain.notifyAll_wiring guarded.copying c.stack c.listeners
  obtain ⟨before, kept, back, after⟩ := Chain.tellEach_once once guarded.copying apart returned
  have mem : Listener.adaptor place ∈ [Listener.adaptor place] := List.mem_singleton_self _
  obtain ⟨made, here, names, makes⟩ :=
    Chain.notifyWithin_shows ((kept.adaptor place mem).trans found) (kept.copying guarded.copying)
      (apart.of_wiring kept.wiring) own (guarded.held.grow kept.store) back
  have bundles : before.bundles c.stack = c.bundles := guarded.held.map_read kept.store
  have found' : c.notifyAll.2.chain.adaptors[place]? = some { a with stack := made } :=
    (after.adaptor place mem).trans here
  refine ⟨⟨once, apart.of_wiring wiring, _, found', rfl, own, names.grow after.store⟩, ?_⟩
  rw [Chain.shownBy, found']
  exact (names.map_read after.store).trans (bundles ▸ makes)

/-- After every call that returns the adaptor listens, and it shows what it makes of the
announcement, if there was any. -/
theorem call (listens : c.Listens place p) (guarded : c.Guarded) {call : Call}
    (spares : call.Spares [.adaptor place]) (returned : call.Returns c) :
    (c.call call).Listens place p ∧
      (c.call call).chain.shownBy place =
        if (c.announced call).isEmpty then c.chain.shownBy place
        else p.makes (c.announced call) := by
  obtain ⟨none, quiet, -⟩ | ⟨some, c', quiet, bundles, told, back⟩ := guarded.call_cases spares
  · rw [none]
    exact listens.of_quiet quiet
  · obtain ⟨listens', -⟩ := listens.of_quiet quiet
    obtain ⟨listens'', shows⟩ := listens'.notifyAll quiet.guarded (back.mp returned)
    rw [told, if_neg (mt List.isEmpty_iff.mp some), ← bundles]
    exact ⟨listens'', shows⟩

end Listens

/-- The bundles that were announced last in a run, if there was an announcement. -/
def lastAnnounced? (c : Client) (calls : List Call) : Option (List Bundle) :=
  ((c.announcements calls).filter (!·.isEmpty)).getLast?

theorem lastAnnounced?_cons (c : Client) (call : Call) (rest : List Call) :
    c.lastAnnounced? (call :: rest) =
      if (c.announced call).isEmpty then (c.call call).lastAnnounced? rest
      else some (((c.call call).lastAnnounced? rest).getD (c.announced call)) := by
  simp only [lastAnnounced?, announcements, List.filter_cons]
  cases (c.announced call).isEmpty with
  | true => rfl
  | false => exact List.getLast?_cons

namespace Listens

theorem run (listens : c.Listens place p) (guarded : c.Guarded) {calls : List Call}
    (spares : ∀ call ∈ calls, call.Spares [.adaptor place]) (returned : c.Returns calls) :
    (c.after calls).Guarded ∧ (c.after calls).Listens place p ∧
      (c.after calls).chain.shownBy place =
        ((c.lastAnnounced? calls).map p.makes).getD (c.chain.shownBy place) := by
  induction calls generalizing c with
  | nil => exact ⟨guarded, listens, rfl⟩
  | cons call rest ih =>
    obtain ⟨here, spares⟩ := List.forall_mem_cons.mp spares
    obtain ⟨listens', shows⟩ := listens.call guarded here returned.1
    obtain ⟨guarded', listens'', shows'⟩ := ih listens' (guarded.call call) spares returned.2
    refine ⟨guarded', listens'', shows'.trans ?_⟩
    -- what the call makes the adaptor show lasts if nothing is announced in the rest
    rw [shows, lastAnnounced?_cons]
    split
    · rfl
    · cases (c.call call).lastAnnounced? rest with
      | none => rfl
      | some later => rfl

end Listens

/-- A load that accepts something announces the bundles that the client then shows. A load that
accepts nothing leaves the client without bundles and the adaptor with those it had, so behind it
the two belong together only if the adaptor showed nothing. -/
theorem Listens.load (listens : c.Listens place p) (guarded : c.Guarded) {count : Nat} {told : Bool}
    (loads : c.load count = (.ok told, c')) :
    told = !(c.accepted count).isEmpty ∧ c'.bundles = c.accepted count ∧
      c'.chain.shownBy place = (if told then p.makes c'.bundles else c.chain.shownBy place) ∧
      (c'.chain.shownBy place = p.makes c'.bundles ↔
        told = true ∨ c.chain.shownBy place = []) := by
  have bundles := guarded.load_bundles count
  have spares : (Call.load count).Spares [.adaptor place] := trivial
  have shows : (c.load count).2.chain.shownBy place =
      if (c.accepted count).isEmpty then c.chain.shownBy place else p.makes (c.accepted count) :=
    (listens.call guarded spares ⟨told, congrArg Prod.fst loads⟩).2
  have answer := c.load_answer (congrArg Prod.fst loads)
  rw [loads] at bundles shows
  refine ⟨answer, bundles, ?_⟩
  rw [shows, bundles, answer]
  cases c.accepted count with
  | nil => simp [Processor.makes]
  | cons b rest => simp

/-- After every run whose loads return, an adaptor that listens to the client alone shows what its
processor makes of the bundles that were announced last. The next load keeps the adaptor in step
with the client if it accepts something, and else only if the adaptor showed nothing before. Loads
return where no adaptor leads back to itself. -/
theorem shows_last_announcement (guarded : c.Guarded) (listens : c.Listens place p)
    {calls : List Call} (spares : ∀ call ∈ calls, call.Spares [.adaptor place]) :
    let c' := c.after calls
    (c.chain.Acyclic → c.Returns calls ∧ ∀ count, ∃ told, (c'.load count).1 = .ok told) ∧
      (c.Returns calls →
        c'.chain.shownBy place =
          ((c.lastAnnounced? calls).map p.makes).getD (c.chain.shownBy place) ∧
        ∀ count told c'', c'.load count = (.ok told, c'') →
          told = !(c'.accepted count).isEmpty ∧ c''.bundles = c'.accepted count ∧
            c''.chain.shownBy place =
              (if told then p.makes c''.bundles else c'.chain.shownBy place) ∧
            (c''.chain.shownBy place = p.makes c''.bundles ↔
              told = true ∨ c'.chain.shownBy place = [])) := by
  intro c'
  refine ⟨guarded.load_returns calls, fun returned => ?_⟩
  obtain ⟨guarded', listens', shows⟩ := listens.run guarded spares returned
  exact ⟨shows, fun count told c'' loads => listens'.load guarded' loads⟩

/-- An adaptor behind a client that hears one frame. -/
def watched : Client where
  listeners := ⟨[.adaptor 0]⟩
  chain := { adaptors := [{ processor := Sample.refuseOdd }] }

/-- The frame arrives and is loaded. -/
def oneFrame : List Call :=
  [ .registry fun r => r.bindConvertor "/f" fun _ => some (.frame { id := 2 }),
    .registry fun r => r.bindConvertor "/a" fun _ => some (.alive [3]),
    .deliver (Osc.Message.encode ⟨"/f", []⟩), .deliver (Osc.Message.encode ⟨"/a", []⟩), .load 0 ]

theorem watched_guarded : watched.Guarded :=
  ⟨List.forall_mem_nil _, by simp [Chain.Copying, watched]⟩

theorem watched_listens : watched.Listens 0 Sample.refuseOdd := by
  have apart : watched.chain.Apart [.adaptor 0] := by
    intro place a found outside
    have inside : place < 1 := (List.getElem?_eq_some_iff.mp found).1
    obtain rfl : place = 0 := by omega
    exact absurd (List.mem_singleton_self _) outside
  exact ⟨rfl, apart, _, rfl, rfl, List.not_mem_nil, List.forall_mem_nil _⟩

theorem watched_acyclic : watched.chain.Acyclic := by
  refine .of_rank id ?_
  rintro (_ | p) q ⟨a, found, mem⟩
  · cases found
    simp at mem
  · cases found

theorem shows_last_announcement_one_frame :
    watched.Guarded ∧ watched.Listens 0 Sample.refuseOdd ∧
      watched.Returns (oneFrame ++ [.load 0]) ∧
      (watched.after (oneFrame ++ [.load 0])).chain.shownBy 0 =
        [⟨[.frame { id := 2 }, .alive [3]]⟩] := by
  have spares : ∀ call ∈ oneFrame ++ [.load 0], call.Spares [.adaptor 0] := by
    simp [oneFrame, Call.Spares]
  obtain ⟨returns, shows⟩ := shows_last_announcement watched_guarded watched_listens spares
  have returned := (returns watched_acyclic).1
  refine ⟨watched_guarded, watched_listens, returned, ?_⟩
  rw [(shows returned).1]
  have last : watched.lastAnnounced? (oneFrame ++ [.load 0]) =
      some [⟨[.frame { id := 2 }, .alive [3]]⟩] := by
    cbv
  rw [last]
  rfl

/-- The load behind the frame accepts nothing: the client has no bundle, and the adaptor still shows
the one of the load before. -/
theorem gone_bundle_still_shown :
    watched.Guarded ∧ watched.Listens 0 Sample.refuseOdd ∧
      let (told, c) := (watched.after oneFrame).load 0
      told = .ok false ∧ c.bundles = [] ∧
        c.chain.shownBy 0 = [⟨[.frame { id := 2 }, .alive [3]]⟩] ∧
        c.chain.shownBy 0 ≠ Sample.refuseOdd.makes c.bundles := by
  have told : ((watched.after oneFrame).load 0).1 = .ok false := by cbv
  have bundles : ((watched.after oneFrame).load 0).2.bundles = [] := by cbv
  have shows : ((watched.after oneFrame).load 0).2.chain.shownBy 0 =
      [⟨[.frame { id := 2 }, .alive [3]]⟩] := by
    cbv
  generalize (watched.after oneFrame).load 0 = outcome at *
  refine ⟨watched_guarded, watched_listens, told, bundles, shows, ?_⟩
  rw [shows, bundles]
  exact List.cons_ne_nil _ _

end Client

end Tangible
