import Mathlib.Data.List.Perm.Subperm
import Mathlib.Logic.Relation
import Tangible.Bundle.Sample
import Tangible.Proofs.Network.Wiring

/-!
# Rings of adaptors

An adaptor that leads back to itself may be told while it is being told, which stops the program.
Nothing else does (`Chain.ring_of_notifyAll`): the adaptors that are being told are different ones,
so there are never more of them than a notification goes deep. Where no adaptor leads back to itself
every notification comes back (`Chain.Acyclic.notifyAll_returns`).
-/

namespace Tangible

namespace Chain

variable {c c' : Chain} {p q : Nat} {l : Listener} {ls : List Listener}

/-- The adaptor at `p` tells the one at `q`. -/
def Tells (c : Chain) (p q : Nat) : Prop :=
  ∃ a, c.adaptors[p]? = some a ∧ .adaptor q ∈ a.listeners.members

/-- No adaptor leads back to itself. -/
def Acyclic (c : Chain) : Prop := ∀ p, ¬ Relation.TransGen c.Tells p p

theorem tells_of_wiring (same : c'.wiring = c.wiring) : c'.Tells = c.Tells := by
  have one {c c' : Chain} (same : c'.wiring = c.wiring) {p q : Nat} (tells : c'.Tells p q) :
      c.Tells p q := by
    obtain ⟨a', found', mem⟩ := tells
    obtain ⟨a, found, alike⟩ := exists_of_wiring same.symm found'
    have listeners : a.listeners = a'.listeners := congrArg (·.listeners) alike
    exact ⟨a, found, listeners ▸ mem⟩
  funext p q
  exact propext ⟨one same, one same.symm⟩

theorem Acyclic.of_wiring (acyclic : c.Acyclic) (same : c'.wiring = c.wiring) : c'.Acyclic := by
  rw [Acyclic, tells_of_wiring same]
  exact acyclic

/-- There is no ring where everybody tells only those of a smaller rank. -/
theorem Acyclic.of_rank (rank : Nat → Nat) (falls : ∀ p q, c.Tells p q → rank q < rank p) :
    c.Acyclic := by
  intro p ring
  have less : ∀ q, Relation.TransGen c.Tells p q → rank q < rank p := by
    intro q path
    induction path with
    | single step => exact falls _ _ step
    | tail _ step less => exact Nat.lt_trans (falls _ _ step) less
  exact Nat.lt_irrefl _ (less p ring)

/-- Who stops the program among those that are told, and the chain that they are told in. -/
theorem exists_of_tellEach_error {tell : Listener → Chain → Except Reentry Unit × Chain}
    {e : Reentry} (kept : ∀ l (c : Chain), c.Copying → c.Kept [] (tell l c).2)
    (copying : c.Copying) (stopped : (tellEach tell ls c).1 = .error e) :
    ∃ l ∈ ls, ∃ c', c.Kept [] c' ∧ (tell l c').1 = .error e := by
  induction ls generalizing c with
  | nil => cases stopped
  | cons l ls ih =>
    have first := kept l c copying
    rw [tellEach] at stopped
    split at stopped
    · next told =>
      rw [told] at first
      obtain ⟨l', mem, c', later, here⟩ := ih (first.copying copying) stopped
      exact ⟨l', List.mem_cons_of_mem _ mem, c', first.trans later, here⟩
    · next told =>
      exact ⟨l, List.mem_cons_self, c, .refl [] c, (congrArg Prod.fst told).trans stopped⟩

/-- Those that are being told lead to the listener. There is room for all the others. -/
structure Busy (c : Chain) (depth : Nat) (busy : List Nat) (l : Listener) : Prop where
  leads : ∀ p ∈ busy, ∀ q, l = .adaptor q → Relation.TransGen c.Tells p q
  distinct : busy.Nodup
  inside : ∀ p ∈ busy, p < c.adaptors.length
  room : c.adaptors.length < depth + busy.length

theorem Busy.depth_ne_zero {busy : List Nat} : ¬ c.Busy 0 busy l := by
  intro told
  have among : busy ⊆ List.range c.adaptors.length :=
    fun p mem => List.mem_range.mpr (told.inside p mem)
  have few := (told.distinct.subperm among).length_le
  have room := told.room
  rw [List.length_range] at few
  omega

/-- An adaptor that is told is one more of them for the listeners that it tells. -/
theorem Busy.next {depth : Nat} {busy : List Nat} {a : Adaptor}
    (told : c.Busy (depth + 1) busy (.adaptor p)) (idle : p ∉ busy)
    (found : c.adaptors[p]? = some a) (same : c'.wiring = c.wiring) (mem : l ∈ a.listeners.members) :
    c'.Busy depth (p :: busy) l := by
  refine ⟨?_, List.nodup_cons.mpr ⟨idle, told.distinct⟩, ?_, ?_⟩
  · rw [tells_of_wiring same]
    rintro b among q rfl
    have step : c.Tells p q := ⟨a, found, mem⟩
    rcases List.mem_cons.mp among with rfl | behind
    · exact .single step
    · exact (told.leads b behind p rfl).tail step
  · rw [length_of_wiring same]
    exact List.forall_mem_cons.mpr ⟨(List.getElem?_eq_some_iff.mp found).1, told.inside⟩
  · have room := told.room
    rw [length_of_wiring same, List.length_cons]
    omega

theorem ring_of_notifyWithin {depth : Nat} {busy : List Nat} {stack : List Cell} {e : Reentry}
    (copying : c.Copying) (told : c.Busy depth busy l)
    (stopped : (notifyWithin depth busy stack l c).1 = .error e) :
    Relation.TransGen c.Tells e.place e.place := by
  induction depth generalizing c busy stack l with
  | zero => exact absurd told Busy.depth_ne_zero
  | succ depth ih =>
    cases l with
    | recorder place => cases stopped
    | adaptor place =>
      by_cases again : place ∈ busy
      · rw [notifyWithin, if_pos again] at stopped
        cases stopped
        exact told.leads place again place rfl
      · cases found : c.adaptors[place]? with
        | none =>
          rw [notifyWithin, if_neg again, found] at stopped
          cases stopped
        | some a =>
          have next := shown_kept found copying List.not_mem_nil stack
          rw [notifyWithin_adaptor found again] at stopped
          dsimp only at stopped
          split at stopped
          · cases stopped
          · obtain ⟨l, mem, c', kept, here⟩ := exists_of_tellEach_error
              (fun l c copying =>
                notifyWithin_kept depth _ _ l copying c.apart_nil List.not_mem_nil)
              (next.copying copying) stopped
            -- who listens to whom is the same wherever the program stops
            have same := (next.trans kept).wiring
            rw [← tells_of_wiring same]
            exact ih ((next.trans kept).copying copying) (told.next again found same mem) here

/-- Where a notification stops the program, an adaptor leads back to itself. -/
theorem ring_of_notifyAll {stack : List Cell} {ls : Listeners} {e : Reentry} (copying : c.Copying)
    (stopped : (c.notifyAll stack ls).1 = .error e) :
    Relation.TransGen c.Tells e.place e.place := by
  obtain ⟨l, -, c', kept, here⟩ := exists_of_tellEach_error
    (fun l c copying => notifyWithin_kept _ _ _ l copying c.apart_nil List.not_mem_nil)
    copying stopped
  have nobody : c'.Busy c.depth [] l :=
    ⟨by simp, List.nodup_nil, by simp, by simp [depth, length_of_wiring kept.wiring]⟩
  rw [← tells_of_wiring kept.wiring]
  exact ring_of_notifyWithin (kept.copying copying) nobody here

theorem Acyclic.notifyAll_returns (acyclic : c.Acyclic) (copying : c.Copying) (stack : List Cell)
    (ls : Listeners) : (c.notifyAll stack ls).1 = .ok () := by
  cases stopped : (c.notifyAll stack ls).1 with
  | error e => exact absurd (ring_of_notifyAll copying stopped) (acyclic e.place)
  | ok => rfl

/-- Two adaptors that listen to each other stop the program. -/
example :
    let c : Chain :=
      { store := ⟨[⟨[.alive []]⟩]⟩
        adaptors :=
          [ { processor := Sample.extraAlive, listeners := ⟨[.adaptor 1]⟩ },
            { processor := Sample.extraAlive, listeners := ⟨[.adaptor 0]⟩ } ] }
    (c.notifyAll [⟨0⟩] ⟨[.adaptor 0]⟩).1 = .error ⟨0⟩ := by
  cbv

end Chain

end Tangible
