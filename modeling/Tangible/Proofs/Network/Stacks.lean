import Tangible.Proofs.Network.Assembly
import Tangible.Proofs.Network.Wiring

/-!
# Stacks behind a client

A stack names bundles of a store, and it shows the same bundles in every store that continues its
own (`Store.Holds.map_read`). Listeners continue the store unless an adaptor writes in place, so a
client without such an adaptor (`Client.Guarded`) keeps the bundles that it accepted:
`Client.Guarded.hearing` for a packet, `Client.Guarded.load` for a load.
-/

namespace Tangible

namespace Store

variable {s s' : Store} {stack : List Cell}

/-- Every cell of the stack names a bundle. -/
def Holds (s : Store) (stack : List Cell) : Prop :=
  ∀ cell ∈ stack, cell.index < s.bundles.length

theorem Holds.grow (held : s.Holds stack) (grown : s.bundles <+: s'.bundles) : s'.Holds stack :=
  fun cell mem => Nat.lt_of_lt_of_le (held cell mem) grown.length_le

theorem Holds.map_read (held : s.Holds stack) (grown : s.bundles <+: s'.bundles) :
    stack.map s'.read = stack.map s.read := by
  obtain ⟨added, continued⟩ := grown
  refine List.map_congr_left fun cell mem => ?_
  rw [read, read, ← continued, List.getElem?_append_left (held cell mem)]

theorem holds_addAll (s : Store) (bs : List Bundle) : (s.addAll bs).2.Holds (s.addAll bs).1 := by
  induction bs generalizing s with
  | nil => exact List.forall_mem_nil _
  | cons b bs ih =>
    refine List.forall_mem_cons.mpr ⟨?_, ih _⟩
    simp [addAll, add, bundles_addAll]

end Store

/-! ## Clients -/

namespace Client

variable {c : Client}

/-- The stack names bundles, and no adaptor behind the client writes into them. -/
structure Guarded (c : Client) : Prop where
  held : c.chain.store.Holds c.stack
  copying : c.chain.Copying

namespace Guarded

theorem pushAll (guarded : c.Guarded) (bs : List Bundle) : (c.pushAll bs).Guarded := by
  refine ⟨List.forall_mem_append.mpr ⟨guarded.held.grow ?_, ?_⟩, guarded.copying⟩
  · simp [Client.pushAll, Store.bundles_addAll]
  · exact c.chain.store.holds_addAll bs

theorem bundles_pushAll (guarded : c.Guarded) (bs : List Bundle) :
    (c.pushAll bs).bundles = c.bundles ++ bs := by
  have old : c.stack.map (c.chain.store.addAll bs).2.read = c.stack.map c.chain.store.read :=
    guarded.held.map_read (by simp [Store.bundles_addAll])
  have new := c.chain.store.map_read_addAll bs
  simp only [Client.pushAll, bundles, Chain.bundles, List.map_append, old, new]

theorem hearing (guarded : c.Guarded) (ms : List Message) :
    (c.hearing ms).Guarded ∧
      (c.hearing ms).bundles = c.bundles ++ (c.receiver.assembly.feedAll ms).1 := by
  have guarded' : Guarded { c with receiver.assembly := (c.receiver.assembly.feedAll ms).2 } :=
    ⟨guarded.held, guarded.copying⟩
  exact ⟨guarded'.pushAll _, guarded'.bundles_pushAll _⟩

theorem notifyAll_kept (guarded : c.Guarded) : c.chain.Kept [] c.notifyAll.2.chain :=
  Chain.notifyAll_kept guarded.copying c.chain.apart_nil c.stack fun _ _ => List.not_mem_nil

theorem notifyAll (guarded : c.Guarded) :
    c.notifyAll.2.Guarded ∧ c.notifyAll.2.bundles = c.bundles := by
  have kept := guarded.notifyAll_kept
  exact ⟨⟨guarded.held.grow kept.store, kept.copying guarded.copying⟩,
    guarded.held.map_read kept.store⟩

/-- What a load leaves: the bundles of the packets that it took, and the other packets. -/
theorem load (guarded : c.Guarded) (count : Nat) :
    ∃ taken, c.inbox = taken ++ (c.load count).2.inbox ∧
      (c.load count).2.bundles = (c.receiver.assembly.feedAll (c.receiver.heard taken)).1 ∧
      (c.load count).2.receiver =
        { c.receiver with
          assembly := (c.receiver.assembly.feedAll (c.receiver.heard taken)).2 } ∧
      (c.load count).2.Guarded := by
  obtain ⟨taken, split, bundles, receiver⟩ :=
    c.receiver.gather_taken (if count = 0 then none else some count) c.inbox
  refine ⟨taken, ?_⟩
  rw [Client.load]
  generalize c.receiver.gather (if count = 0 then none else some count) c.inbox = gathered at *
  let fresh := { c with receiver := gathered.receiver, inbox := gathered.inbox }.purge
  have fresh_guarded : fresh.Guarded := ⟨List.forall_mem_nil _, guarded.copying⟩
  have pushed : (fresh.pushAll gathered.bundles).bundles = gathered.bundles :=
    Client.bundles_pushAll rfl _
  have kept := (fresh_guarded.pushAll gathered.bundles).notifyAll
  dsimp only
  split
  · exact ⟨split, pushed.trans bundles, receiver, fresh_guarded.pushAll _⟩
  · exact ⟨split, kept.2.trans (pushed.trans bundles), receiver, kept.1⟩

end Guarded

end Client

end Tangible
