import Mathlib.Algebra.Group.Nat.Defs
import Tangible.Proofs.Graph.Arena

/-!
# Generations

A handle is spent when its slot has gone on to a later generation. A spent handle finds nothing
(`Spent.stale`), and no insertion returns it again (`Spent.ne_nextHandle`).

`Later a b n` says that the operations lead from `a` to `b` with `n` insertions; an arena that loses
its slots is later than none. `Aged a n` says that `n` insertions are enough to make `a`: a slot is
filled once in every generation. While the insertions are fewer than the words, no generation comes
round to zero, so a spent handle stays spent (`Later.spent`), and a value that is gone has left a
spent handle behind (`Later.live_or_spent`). Nor are there more slots than words then, so handles
can keep the numbers of their slots in 32 bits (`InRange.toNat_index`).
-/

namespace Tangible.Arena

variable {α : Type} {a b c : Arena α} {h h' : Handle} {m n : Nat}

def Spent (a : Arena α) (h : Handle) : Prop :=
  ∃ slot, a.slots[h.slot]? = some slot ∧ h.generation < slot.generation

structure Aged (a : Arena α) (n : Nat) : Prop where
  length_le : a.slots.length ≤ n
  generation_le : ∀ slot ∈ a.slots,
    slot.generation.toNat + (if slot.content.isSome then 1 else 0) ≤ n

inductive Later (a : Arena α) : Arena α → Nat → Prop where
  | refl : Later a a 0
  | insert {b : Arena α} {n : Nat} (value : α) :
      Later a b n → Later a (b.insert value).2 (n + 1)
  | erase {b : Arena α} {n : Nat} (h : Handle) : Later a b n → Later a (b.erase h) n
  | revalue {b c : Arena α} {n : Nat} :
      Later a b n → b.Revalued (fun _ _ => True) c → Later a c n

/-! ## Spent handles -/

theorem Spent.stale (spent : a.Spent h) : a.get? h = none := by
  obtain ⟨slot, found, less⟩ := spent
  have ne : slot.generation ≠ h.generation := by
    intro same
    rw [same] at less
    exact absurd less (UInt32.lt_irrefl _)
  simp [get?, found, ne]

theorem Spent.ne_nextHandle (spent : a.Spent h) : h ≠ a.nextHandle := by
  obtain ⟨slot, found, less⟩ := spent
  rintro rfl
  cases hfree : a.free with
  | nil =>
    have next : a.nextHandle = ⟨a.slots.length, 0⟩ := by simp [nextHandle, hfree]
    simp [next] at found
  | cons i rest =>
    have place : a.nextHandle.slot = i := by simp [nextHandle, hfree]
    rw [place] at found
    have next : a.nextHandle = ⟨i, slot.generation⟩ := by simp [nextHandle, hfree, found]
    rw [next] at less
    exact absurd less (UInt32.lt_irrefl _)

theorem slots_erase {value : α} (live : a.get? h = some value) :
    (a.erase h).slots = a.slots.set h.slot ⟨h.generation + 1, none⟩ := by
  simp [Arena.erase, live]

theorem erase_of_stale (stale : a.get? h = none) : a.erase h = a := by
  simp [Arena.erase, stale]

/-- A live handle leaves room for one more generation. -/
theorem Aged.generation_lt (aged : a.Aged n) {value : α} (live : a.get? h = some value) :
    h.generation.toNat < n := by
  have found := get?_eq_some_iff.mp live
  have le := aged.generation_le _ (List.mem_of_getElem? found)
  simp only [Option.isSome_some, if_true] at le
  omega

theorem toNat_succ {generation : UInt32} (few : generation.toNat + 1 < 2 ^ 32) :
    (generation + 1).toNat = generation.toNat + 1 := by
  rw [UInt32.toNat_add, UInt32.toNat_one, Nat.mod_eq_of_lt few]

theorem spent_erase (aged : a.Aged n) (few : n < 2 ^ 32) {value : α}
    (live : a.get? h = some value) : (a.erase h).Spent h := by
  have found := get?_eq_some_iff.mp live
  have inside := (List.getElem?_eq_some_iff.mp found).1
  have room := aged.generation_lt live
  refine ⟨⟨h.generation + 1, none⟩, ?_, ?_⟩
  · rw [slots_erase live, List.getElem?_set_self inside]
  · rw [UInt32.lt_iff_toNat_lt, toNat_succ (by omega)]
    omega

theorem Spent.erase (spent : a.Spent h) (aged : a.Aged n) (few : n < 2 ^ 32) (h' : Handle) :
    (a.erase h').Spent h := by
  cases live : a.get? h' with
  | none => rwa [erase_of_stale live]
  | some value =>
    obtain ⟨slot, found, less⟩ := spent
    by_cases same : h'.slot = h.slot
    -- the slot goes on once more
    · have found' := get?_eq_some_iff.mp live
      rw [same, found, Option.some.injEq] at found'
      subst found'
      obtain ⟨slot', here, later⟩ := spent_erase aged few live
      refine ⟨slot', by rwa [same] at here, UInt32.lt_trans less later⟩
    · refine ⟨slot, ?_, less⟩
      rw [slots_erase live, List.getElem?_set_ne same, found]

theorem Spent.insert (spent : a.Spent h) (wf : a.WellFormed) (value : α) :
    (a.insert value).2.Spent h := by
  obtain ⟨slot, found, less⟩ := spent
  have inside := (List.getElem?_eq_some_iff.mp found).1
  cases hfree : a.free with
  | nil =>
    refine ⟨slot, ?_, less⟩
    simp only [Arena.insert, hfree]
    rw [List.getElem?_append_left inside, found]
  | cons i rest =>
    obtain ⟨empty, here, _⟩ := (wf.mem_free i).mp (by simp [hfree])
    have next : a.nextHandle = ⟨i, empty.generation⟩ := by simp [nextHandle, hfree, here]
    simp only [Arena.insert, hfree, next]
    -- filling a slot leaves its generation
    by_cases same : i = h.slot
    · subst same
      rw [found, Option.some.injEq] at here
      subst here
      exact ⟨_, List.getElem?_set_self inside, less⟩
    · exact ⟨slot, by rw [List.getElem?_set_ne same, found], less⟩

theorem Spent.revalue {r : α → α → Prop} (spent : a.Spent h) (same : a.Revalued r b) :
    b.Spent h := by
  obtain ⟨slot, found, less⟩ := spent
  have slots := same.slot? h.slot
  rw [found] at slots
  cases found' : b.slots[h.slot]? with
  | none =>
    rw [found'] at slots
    cases slots
  | some slot' =>
    rw [found'] at slots
    cases slots with
    | some both => exact ⟨slot', found', both.1 ▸ less⟩

theorem isSome_of_rel {r : α → α → Prop} {x y : Option α} (related : Option.Rel r x y) :
    y.isSome = x.isSome := by
  cases related <;> rfl

/-! ## The age of an arena -/

namespace Aged

theorem empty : (Arena.empty : Arena α).Aged 0 :=
  ⟨Nat.le_refl _, by simp [Arena.empty]⟩

theorem mono (aged : a.Aged m) (le : m ≤ n) : a.Aged n :=
  ⟨Nat.le_trans aged.length_le le, fun slot mem => Nat.le_trans (aged.generation_le slot mem) le⟩

theorem insert (aged : a.Aged n) (wf : a.WellFormed) (value : α) :
    (a.insert value).2.Aged (n + 1) := by
  have old := aged.mono (Nat.le_succ n)
  cases hfree : a.free with
  | nil =>
    have next : a.nextHandle = ⟨a.slots.length, 0⟩ := by simp [nextHandle, hfree]
    simp only [Arena.insert, hfree, next]
    constructor
    · have length := aged.length_le
      simpa using length
    · intro slot mem
      rcases List.mem_append.mp mem with before | new
      · exact old.generation_le slot before
      · rw [List.mem_singleton.mp new]
        simp
  | cons i rest =>
    obtain ⟨empty, here, content⟩ := (wf.mem_free i).mp (by simp [hfree])
    have next : a.nextHandle = ⟨i, empty.generation⟩ := by simp [nextHandle, hfree, here]
    simp only [Arena.insert, hfree, next]
    constructor
    · have length := old.length_le
      simpa using length
    · intro slot mem
      rcases List.mem_or_eq_of_mem_set mem with before | rfl
      · exact old.generation_le slot before
      · have le := aged.generation_le empty (List.mem_of_getElem? here)
        simp only [content, Option.isSome_none, Bool.false_eq_true, if_false] at le
        simpa using le

theorem erase (aged : a.Aged n) (few : n < 2 ^ 32) (h : Handle) : (a.erase h).Aged n := by
  cases live : a.get? h with
  | none => rwa [erase_of_stale live]
  | some value =>
    have room := aged.generation_lt live
    constructor
    · rw [slots_erase live, List.length_set]
      exact aged.length_le
    · intro slot mem
      rw [slots_erase live] at mem
      rcases List.mem_or_eq_of_mem_set mem with before | rfl
      · exact aged.generation_le slot before
      · rw [toNat_succ (Nat.lt_of_le_of_lt room few)]
        exact room

theorem revalue {r : α → α → Prop} (aged : a.Aged n) (same : a.Revalued r b) : b.Aged n := by
  constructor
  · rw [← same.slots.length_eq]
    exact aged.length_le
  · intro slot mem
    obtain ⟨i, found⟩ := List.mem_iff_getElem?.mp mem
    have slots := same.slot? i
    rw [found] at slots
    cases found' : a.slots[i]? with
    | none =>
      rw [found'] at slots
      cases slots
    | some slot' =>
      rw [found'] at slots
      cases slots with
      | some both =>
        have le := aged.generation_le slot' (List.mem_of_getElem? found')
        rwa [both.1, ← isSome_of_rel both.2] at le

end Aged

/-- Every slot number that the arena keeps names a slot and fits into a word. -/
structure InRange (a : Arena α) : Prop where
  free : ∀ i ∈ a.free, i < a.slots.length
  order : ∀ h ∈ a.order, h.slot < a.slots.length
  length_lt : a.slots.length < 2 ^ 32

theorem slot_lt_of_live (live : (a.get? h).isSome) : h.slot < a.slots.length := by
  obtain ⟨value, found⟩ := Option.isSome_iff_exists.mp live
  exact (List.getElem?_eq_some_iff.mp (get?_eq_some_iff.mp found)).1

theorem Spent.slot_lt (spent : a.Spent h) : h.slot < a.slots.length := by
  obtain ⟨slot, found, -⟩ := spent
  exact (List.getElem?_eq_some_iff.mp found).1

theorem Aged.inRange (aged : a.Aged n) (wf : a.WellFormed) (few : n < 2 ^ 32) : a.InRange where
  free i mem := by
    obtain ⟨slot, found, _⟩ := (wf.mem_free i).mp mem
    exact (List.getElem?_eq_some_iff.mp found).1
  order h mem := slot_lt_of_live ((wf.mem_order h).mp mem)
  length_lt := Nat.lt_of_le_of_lt aged.length_le few

/-- The handles of the slots lose nothing of their numbers. -/
theorem InRange.toNat_index (range : a.InRange) (inside : h.slot < a.slots.length) :
    h.index.toNat = h.slot :=
  UInt32.toNat_ofNat_of_lt (Nat.lt_trans inside range.length_lt)

/-! ## What holds of every later arena -/

namespace Later

theorem trans (first : a.Later b m) (second : b.Later c n) : a.Later c (m + n) := by
  induction second with
  | refl => exact first
  | insert value _ ih => exact ih.insert value
  | erase h _ ih => exact ih.erase h
  | revalue _ same ih => exact ih.revalue same

theorem wellFormed (later : a.Later b n) (wf : a.WellFormed) : b.WellFormed := by
  induction later with
  | refl => exact wf
  | insert value _ ih => exact ih.insert value
  | erase h _ ih => exact ih.erase h
  | revalue _ same ih => exact same.wellFormed ih

theorem aged (later : a.Later b n) (wf : a.WellFormed) (aged : a.Aged m) (few : m + n < 2 ^ 32) :
    b.Aged (m + n) := by
  induction later with
  | refl => exact aged
  | insert value before ih =>
    exact (ih (Nat.lt_of_succ_lt few)).insert (before.wellFormed wf) value
  | erase h _ ih => exact (ih few).erase few h
  | revalue _ same ih => exact (ih few).revalue same

theorem spent (later : a.Later b n) (wf : a.WellFormed) (aged : a.Aged m)
    (few : m + n < 2 ^ 32) (spent : a.Spent h) : b.Spent h := by
  induction later with
  | refl => exact spent
  | insert value before ih => exact (ih (Nat.lt_of_succ_lt few)).insert (before.wellFormed wf) value
  | erase h' before ih => exact (ih few).erase (before.aged wf aged few) few h'
  | revalue _ same ih => exact (ih few).revalue same

theorem live_or_spent (later : a.Later b n) (wf : a.WellFormed) (aged : a.Aged m)
    (few : m + n < 2 ^ 32) (live : (a.get? h).isSome) : (b.get? h).isSome ∨ b.Spent h := by
  induction later with
  | refl => exact .inl live
  | insert value before ih =>
    have wf' := before.wellFormed wf
    refine (ih (Nat.lt_of_succ_lt few)).imp (fun here => ?_) (·.insert wf' value)
    rw [wf'.get?_insert]
    split
    · rfl
    · exact here
  | erase h' before ih =>
    have aged' := before.aged wf aged few
    rcases ih few with here | gone
    · rw [get?_erase]
      by_cases same : h = h'
      · obtain ⟨value, found⟩ := Option.isSome_iff_exists.mp here
        exact .inr (same ▸ spent_erase aged' few found)
      · exact .inl (by rwa [if_neg same])
    · exact .inr (gone.erase aged' few h')
  | revalue _ same ih =>
    refine (ih few).imp (fun here => ?_) (·.revalue same)
    rwa [isSome_of_rel (same.get? h)]

end Later

end Tangible.Arena
