import Mathlib.Data.List.Nodup
import Tangible.Graph.Arena

/-!
# The invariant of arenas

`Arena.WellFormed` ties the three parts of an arena together: the live handles are exactly those
listed in `order`, and the free slots are exactly the empty ones. It holds of the empty arena and
every operation keeps it, whatever the handles that the operation is given.

Under the invariant every operation has one law about look-ups (`get?_insert`, `get?_erase`,
`get?_modify`, `get?_map`) and one about the listing (`entries_insert`, `entries_erase`,
`entries_modify`).
-/

namespace Tangible.Arena

variable {α : Type} {a : Arena α}

structure WellFormed (a : Arena α) : Prop where
  order_nodup : a.order.Nodup
  mem_order : ∀ h, h ∈ a.order ↔ (a.get? h).isSome
  free_nodup : a.free.Nodup
  mem_free : ∀ i, i ∈ a.free ↔ ∃ slot, a.slots[i]? = some slot ∧ slot.content = none

/-! ## Look-ups -/

theorem get?_eq_some_iff {h : Handle} {value : α} :
    a.get? h = some value ↔ a.slots[h.slot]? = some ⟨h.generation, some value⟩ := by
  simp only [get?]
  split
  · next slot found =>
    rw [found]
    obtain ⟨generation, content⟩ := slot
    simp only [Option.some.injEq, Slot.mk.injEq]
    split <;> simp_all
  · next found => simp [found]

theorem get?_of_content_none {h : Handle} {slot : Slot α} (found : a.slots[h.slot]? = some slot)
    (free : slot.content = none) : a.get? h = none := by
  rw [Option.eq_none_iff_forall_ne_some]
  intro value live
  rw [get?_eq_some_iff, found, Option.some.injEq] at live
  rw [live] at free
  simp at free

/-- Writing a slot decides the look-up of the handles of this slot and of no others. -/
theorem get?_set {slots : List (Slot α)} {free : List Nat} {order : List Handle} {i : Nat}
    (inside : i < slots.length) (slot : Slot α) (h : Handle) :
    get? ⟨slots.set i slot, free, order⟩ h =
      if h.slot = i then if slot.generation = h.generation then slot.content else none
      else get? ⟨slots, free, order⟩ h := by
  simp only [get?, List.getElem?_set]
  by_cases same : h.slot = i
  · simp [same, inside]
  · simp [same, Ne.symm same]

/-- The handles of one slot are stale but for one, and all are stale in a free slot. -/
theorem eq_of_slot_eq {h h' : Handle} {v v' : α} (live : a.get? h = some v)
    (live' : a.get? h' = some v') (same : h.slot = h'.slot) : h = h' := by
  rw [get?_eq_some_iff] at live live'
  rw [same, live'] at live
  simp only [Option.some.injEq, Slot.mk.injEq] at live
  cases h
  cases h'
  simp_all

theorem get?_erase (h h' : Handle) :
    (a.erase h).get? h' = if h' = h then none else a.get? h' := by
  simp only [erase]
  split
  · next stale =>
    split
    · next same => rw [same, stale]
    · rfl
  · next value live =>
    have found := get?_eq_some_iff.mp live
    rw [get?_set (List.getElem?_eq_some_iff.mp found).1]
    -- the other handles of the slot were stale before it was emptied
    by_cases same : h'.slot = h.slot
    · have stale : h' ≠ h → a.get? h' = none := by
        intro ne
        rw [Option.eq_none_iff_forall_ne_some]
        exact fun v live' => ne (eq_of_slot_eq live' live same)
      simp only [same, if_true, ite_self]
      split
      · rfl
      · next ne => exact (stale ne).symm
    · have ne : h' ≠ h := fun eq => same (eq ▸ rfl)
      simp only [same, if_false, ne]
      rfl

theorem get?_modify (f : α → α) (h h' : Handle) :
    (a.modify h f).get? h' = if h' = h then (a.get? h).map f else a.get? h' := by
  simp only [modify]
  split
  · next stale =>
    split
    · next same => rw [same, stale]; rfl
    · rfl
  · next value live =>
    have found := get?_eq_some_iff.mp live
    rw [get?_set (List.getElem?_eq_some_iff.mp found).1]
    by_cases same : h'.slot = h.slot
    · by_cases eq : h' = h
      · simp [eq, live]
      · have stale : a.get? h' = none := by
          rw [Option.eq_none_iff_forall_ne_some]
          exact fun v live' => eq (eq_of_slot_eq live' live same)
        have generation : h.generation ≠ h'.generation := by
          intro generation
          cases h
          cases h'
          simp_all
        simp [same, eq, stale, generation]
    · have ne : h' ≠ h := fun eq => same (eq ▸ rfl)
      simp only [same, if_false, ne]

namespace WellFormed

theorem nextHandle_stale (wf : a.WellFormed) : a.get? a.nextHandle = none := by
  cases hfree : a.free with
  | nil => simp [nextHandle, hfree, get?]
  | cons i rest =>
    obtain ⟨slot, found, free⟩ := (wf.mem_free i).mp (by simp [hfree])
    have place : a.nextHandle.slot = i := by simp [nextHandle, hfree]
    exact get?_of_content_none (place ▸ found) free

theorem nextHandle_notMem (wf : a.WellFormed) : a.nextHandle ∉ a.order := by
  rw [wf.mem_order, wf.nextHandle_stale]
  simp

theorem get?_insert (wf : a.WellFormed) (value : α) (h : Handle) :
    (a.insert value).2.get? h = if h = a.nextHandle then some value else a.get? h := by
  cases hfree : a.free with
  | nil =>
    have next : a.nextHandle = ⟨a.slots.length, 0⟩ := by simp [nextHandle, hfree]
    simp only [insert, hfree, next, get?, List.getElem?_append]
    obtain ⟨slot, generation⟩ := h
    rcases Nat.lt_trichotomy slot a.slots.length with less | equal | greater
    · simp [less, Nat.ne_of_lt less]
    · subst equal
      simp only [Nat.lt_irrefl, if_false, Nat.sub_self, List.getElem?_cons_zero, Handle.mk.injEq,
        true_and, Nat.le_refl, List.getElem?_eq_none]
      simp only [eq_comm]
    · have : slot - a.slots.length ≠ 0 := by omega
      simp [Nat.not_lt_of_gt greater, Nat.ne_of_gt greater, this]
  | cons i rest =>
    -- the slot is empty, so every handle of it is stale before, and one is live afterwards
    obtain ⟨slot, found, free⟩ := (wf.mem_free i).mp (by simp [hfree])
    have next : a.nextHandle = ⟨i, slot.generation⟩ := by simp [nextHandle, hfree, found]
    have inside : i < a.slots.length := (List.getElem?_eq_some_iff.mp found).1
    simp only [insert, hfree, next]
    rw [get?_set inside]
    by_cases same : h.slot = i
    · have stale : a.get? h = none := get?_of_content_none (same ▸ found) free
      have eq : h = ⟨i, slot.generation⟩ ↔ slot.generation = h.generation := by
        cases h
        simp_all [eq_comm]
      simp only [same, if_true, stale, eq]
    · have ne : h ≠ ⟨i, slot.generation⟩ := fun eq => same (eq ▸ rfl)
      simp only [same, if_false, ne]
      rfl

/-! ## Every operation keeps the invariant -/

theorem empty : (Arena.empty : Arena α).WellFormed where
  order_nodup := List.nodup_nil
  mem_order h := by simp [Arena.empty, get?]
  free_nodup := List.nodup_nil
  mem_free i := by simp [Arena.empty]

theorem insert (wf : a.WellFormed) (value : α) : (a.insert value).2.WellFormed where
  order_nodup := by
    have fresh := wf.nextHandle_notMem
    simp only [Arena.insert, List.nodup_append, wf.order_nodup, List.nodup_singleton,
      List.mem_singleton, true_and]
    rintro h live _ rfl rfl
    exact fresh live
  mem_order h := by
    rw [wf.get?_insert]
    simp only [Arena.insert, List.mem_append, List.mem_singleton, wf.mem_order]
    split <;> simp_all
  free_nodup := wf.free_nodup.tail
  mem_free i := by
    have old := wf.mem_free i
    cases hfree : a.free with
    | nil =>
      rw [hfree] at old
      simp only [Arena.insert, hfree, List.tail_nil, List.getElem?_append]
      split
      · exact old
      · rcases hlength : i - a.slots.length with _ | n <;> simp
    | cons j rest =>
      obtain ⟨slot, found, _⟩ := (wf.mem_free j).mp (by simp [hfree])
      have inside : j < a.slots.length := (List.getElem?_eq_some_iff.mp found).1
      have place : a.nextHandle.slot = j := by simp [nextHandle, hfree]
      have unique : j ∉ rest := (List.nodup_cons.mp (hfree ▸ wf.free_nodup)).1
      simp only [Arena.insert, hfree, List.tail_cons, place, List.getElem?_set]
      rw [hfree, List.mem_cons] at old
      by_cases same : j = i
      · subst same
        simp [unique, inside]
      · simp only [same, if_false, ← old, Ne.symm same, false_or]

theorem erase (wf : a.WellFormed) (h : Handle) : (a.erase h).WellFormed := by
  cases live : a.get? h with
  | none => rwa [Arena.erase, live]
  | some value =>
    have found := get?_eq_some_iff.mp live
    have inside : h.slot < a.slots.length := (List.getElem?_eq_some_iff.mp found).1
    have order : (a.erase h).order = a.order.filter (· ≠ h) := by simp [Arena.erase, live]
    have free : (a.erase h).free = h.slot :: a.free := by simp [Arena.erase, live]
    have slots : (a.erase h).slots = a.slots.set h.slot ⟨h.generation + 1, none⟩ := by
      simp [Arena.erase, live]
    refine ⟨order ▸ wf.order_nodup.filter _, fun h' => ?_, ?_, fun i => ?_⟩
    · rw [order, get?_erase, List.mem_filter, wf.mem_order]
      by_cases same : h' = h <;> simp [same]
    · rw [free, List.nodup_cons, wf.mem_free]
      refine ⟨?_, wf.free_nodup⟩
      rintro ⟨slot, found', none⟩
      rw [found, Option.some.injEq] at found'
      rw [← found'] at none
      simp at none
    · rw [free, slots, List.mem_cons, wf.mem_free, List.getElem?_set]
      by_cases same : h.slot = i
      · simp [same, same ▸ inside]
      · simp [same, Ne.symm same]

end WellFormed

/-! ## Changes of the values alone -/

/-- The second arena is the first with other values, each related to the one it replaces. -/
structure Revalued (r : α → α → Prop) (a b : Arena α) : Prop where
  order : b.order = a.order
  free : b.free = a.free
  slots : List.Forall₂ (fun s t => s.generation = t.generation ∧ Option.Rel r s.content t.content)
    a.slots b.slots

namespace Revalued

variable {r : α → α → Prop} {b : Arena α}

theorem slot? (same : Revalued r a b) (i : Nat) :
    Option.Rel (fun s t => s.generation = t.generation ∧ Option.Rel r s.content t.content)
      a.slots[i]? b.slots[i]? := by
  have pairs := same.slots
  generalize a.slots = slots at pairs
  generalize b.slots = slots' at pairs
  induction pairs generalizing i with
  | nil => exact .none
  | cons first _ ih =>
    cases i with
    | zero => exact .some first
    | succ i => exact ih i

/-- A handle is live in both arenas or in neither, and the values are related. -/
theorem get? (same : Revalued r a b) (h : Handle) : Option.Rel r (a.get? h) (b.get? h) := by
  have slot := same.slot? h.slot
  simp only [Arena.get?]
  generalize a.slots[h.slot]? = s at slot
  generalize b.slots[h.slot]? = t at slot
  cases slot with
  | none => exact .none
  | some both =>
    simp only [← both.1]
    split
    · exact both.2
    · exact .none

theorem wellFormed (same : Revalued r a b) (wf : a.WellFormed) : b.WellFormed where
  order_nodup := same.order ▸ wf.order_nodup
  mem_order h := by
    have values := same.get? h
    rw [same.order, wf.mem_order]
    generalize a.get? h = x at values
    generalize b.get? h = y at values
    cases values <;> simp
  free_nodup := same.free ▸ wf.free_nodup
  mem_free i := by
    rw [same.free, wf.mem_free]
    have slot := same.slot? i
    generalize a.slots[i]? = s at slot
    generalize b.slots[i]? = t at slot
    cases slot with
    | none => simp
    | @some s t both =>
      have content : s.content = none ↔ t.content = none := by
        obtain ⟨_, content⟩ := both
        generalize s.content = x at content
        generalize t.content = y at content
        cases content <;> simp
      simp [content]

/-- What the relation says of the values holds of the whole listing. -/
theorem entries {γ : Type} (same : Revalued r a b) (p : α → γ) (agree : ∀ x y, r x y → p x = p y) :
    b.entries.map (fun e => (e.1, p e.2)) = a.entries.map fun e => (e.1, p e.2) := by
  simp only [Arena.entries, List.map_filterMap, same.order, Option.map_map]
  refine List.filterMap_congr fun h _ => ?_
  have values := same.get? h
  generalize a.get? h = x at values
  generalize b.get? h = y at values
  cases values with
  | none => rfl
  | some related => simp [agree _ _ related]

theorem content_refl (refl : ∀ x, r x x) (x : Option α) : Option.Rel r x x := by
  cases x with
  | none => exact .none
  | some x => exact .some (refl x)

theorem slots_refl (refl : ∀ x, r x x) (slots : List (Slot α)) : List.Forall₂
    (fun s t => s.generation = t.generation ∧ Option.Rel r s.content t.content) slots slots :=
  List.forall₂_same.mpr fun s _ => ⟨rfl, content_refl refl s.content⟩

theorem of_modify (refl : ∀ x, r x x) (f : α → α) (h : Handle)
    (step : ∀ x, a.get? h = some x → r x (f x)) : Revalued r a (a.modify h f) := by
  cases live : a.get? h with
  | none =>
    rw [modify, live]
    exact ⟨rfl, rfl, slots_refl refl a.slots⟩
  | some value =>
    rw [modify, live]
    refine ⟨rfl, rfl, List.forall₂_iff_get.mpr ⟨by simp, fun i before after => ?_⟩⟩
    have found := get?_eq_some_iff.mp live
    simp only [List.get_eq_getElem, List.getElem_set]
    split
    · next same =>
      subst same
      rw [List.getElem?_eq_some_iff] at found
      rw [found.2]
      exact ⟨rfl, .some (step value live)⟩
    · exact ⟨rfl, content_refl refl _⟩

theorem of_map (f : α → α) (step : ∀ x, r x (f x)) : Revalued r a (a.map f) := by
  refine ⟨rfl, rfl, ?_⟩
  simp only [Arena.map]
  induction a.slots with
  | nil => exact .nil
  | cons s _ ih =>
    obtain ⟨generation, content⟩ := s
    cases content with
    | none => exact .cons ⟨rfl, .none⟩ ih
    | some x => exact .cons ⟨rfl, .some (step x)⟩ ih

theorem of_zipSlots {β : Type} (f : β → α → α) (bs : List β) (refl : ∀ x, r x x)
    (step : ∀ y x, r x (f y x)) : Revalued r a { a with slots := zipSlots f a.slots bs } := by
  refine ⟨rfl, rfl, ?_⟩
  simp only
  fun_induction zipSlots f a.slots bs with
  | case1 slots => exact slots_refl refl slots
  | case2 => exact .nil
  | case3 _ _ _ _ ih => exact .cons ⟨rfl, .none⟩ ih
  | case4 _ _ _ _ _ ih => exact .cons ⟨rfl, .some (step _ _)⟩ ih

end Revalued

/-! ## The listing -/

namespace WellFormed

theorem entries_keys (wf : a.WellFormed) : a.entries.map (·.1) = a.order := by
  have all (order : List Handle) (live : ∀ h ∈ order, (a.get? h).isSome) :
      (order.filterMap fun h => (a.get? h).map (h, ·)).map (·.1) = order := by
    induction order with
    | nil => rfl
    | cons h order ih =>
      obtain ⟨value, found⟩ := Option.isSome_iff_exists.mp (live h (List.mem_cons_self ..))
      simp [found, ih fun h' mem => live h' (List.mem_cons_of_mem _ mem)]
  exact all a.order fun h mem => (wf.mem_order h).mp mem

theorem mem_entries (wf : a.WellFormed) (h : Handle) (value : α) :
    (h, value) ∈ a.entries ↔ a.get? h = some value := by
  simp only [Arena.entries, List.mem_filterMap, Option.map_eq_some_iff, Prod.mk.injEq]
  constructor
  · rintro ⟨_, _, _, found, rfl, rfl⟩
    exact found
  · intro found
    exact ⟨h, (wf.mem_order h).mpr (by simp [found]), value, found, rfl, rfl⟩

theorem entries_insert (wf : a.WellFormed) (value : α) :
    (a.insert value).2.entries = a.entries ++ [(a.nextHandle, value)] := by
  have fresh := wf.nextHandle_notMem
  have order : (a.insert value).2.order = a.order ++ [a.nextHandle] := rfl
  simp only [Arena.entries, order, List.filterMap_append, wf.get?_insert]
  congr 1
  · refine List.filterMap_congr fun h mem => ?_
    have ne : h ≠ a.nextHandle := fun eq => fresh (eq ▸ mem)
    simp [ne]
  · simp

end WellFormed

theorem entries_erase (h : Handle) : (a.erase h).entries = a.entries.filter (·.1 ≠ h) := by
  have all (order : List Handle) :
      (order.filterMap fun h' => ((a.erase h).get? h').map (h', ·)) =
        (order.filterMap fun h' => (a.get? h').map (h', ·)).filter (·.1 ≠ h) := by
    induction order with
    | nil => rfl
    | cons h' order ih =>
      rw [List.filterMap_cons, List.filterMap_cons, ih, get?_erase]
      by_cases same : h' = h
      · cases a.get? h' <;> simp [same]
      · cases a.get? h' <;> simp [same]
  rw [entries, entries, ← all]
  cases live : a.get? h with
  | none => rw [erase, live]
  | some value =>
    -- the handle that left the order has no value to list either
    have order : (a.erase h).order = a.order.filter (· ≠ h) := by simp [erase, live]
    rw [order, List.filterMap_filter]
    refine List.filterMap_congr fun h' _ => ?_
    by_cases same : h' = h <;> simp [same, get?_erase]

theorem entries_modify (f : α → α) (h : Handle) :
    (a.modify h f).entries = a.entries.map fun e => if e.1 = h then (e.1, f e.2) else e := by
  have order : (a.modify h f).order = a.order := by
    rw [modify]
    split <;> rfl
  simp only [entries, order, List.map_filterMap, get?_modify]
  refine List.filterMap_congr fun h' _ => ?_
  by_cases same : h' = h
  · subst same
    cases a.get? h' <;> simp
  · cases a.get? h' <;> simp [same]

theorem get?_map (f : α → α) (h : Handle) : (a.map f).get? h = (a.get? h).map f := by
  simp only [get?, map, List.getElem?_map]
  cases a.slots[h.slot]? with
  | none => rfl
  | some slot =>
    simp only [Option.map_some]
    split <;> rfl

theorem entries_map (f : α → α) :
    (a.map f).entries = a.entries.map fun e => (e.1, f e.2) := by
  have order : (a.map f).order = a.order := rfl
  simp only [entries, order, List.map_filterMap, get?_map, Option.map_map]
  rfl

end Tangible.Arena
