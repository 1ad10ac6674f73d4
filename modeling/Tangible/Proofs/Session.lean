import Tangible.Proofs.Lists
import Tangible.Session

/-!
# Registered sessions

The registry counts registrations (`Sessions.Kept.count_register`,
`Sessions.Kept.count_unregister`). It keeps its entries in ascending order of the ids and drops
those whose count falls to zero (`Sessions.Kept`), so it lists the ids with a registration that was
not taken back, each once and in ascending order (`Sessions.Kept.mem_ids`,
`Sessions.Kept.ids_ascend`).
-/

namespace Tangible.Sessions

variable {s : Sessions} {id : UInt32} {entries : List (UInt32 × Nat)}

/-! ## Entries -/

theorem lookup_below (below : ∀ e ∈ entries, id < e.1) : entries.lookup id = none := by
  induction entries with
  | nil => rfl
  | cons e rest ih =>
    obtain ⟨other, n⟩ := e
    rw [List.forall_mem_cons] at below
    rw [lookup_cons_eq_ite, if_neg (UInt32.ne_of_lt below.1), ih below.2]

/-- In ascending order of the ids, with something to count at each. -/
structure Counted (entries : List (UInt32 × Nat)) : Prop where
  ascending : entries.Pairwise (·.1 < ·.1)
  positive : ∀ e ∈ entries, 0 < e.2

namespace Counted

theorem nil : Counted [] := ⟨.nil, List.forall_mem_nil _⟩

theorem tail {e : UInt32 × Nat} {rest : List (UInt32 × Nat)} (counted : Counted (e :: rest)) :
    Counted rest :=
  ⟨(List.pairwise_cons.mp counted.ascending).2, fun e' mem =>
    counted.positive e' (List.mem_cons_of_mem _ mem)⟩

theorem cons {e : UInt32 × Nat} {rest : List (UInt32 × Nat)} (counted : Counted rest)
    (below : ∀ e' ∈ rest, e.1 < e'.1) (positive : 0 < e.2) : Counted (e :: rest) :=
  ⟨List.pairwise_cons.mpr ⟨below, counted.ascending⟩,
    List.forall_mem_cons.mpr ⟨positive, counted.positive⟩⟩

/-- The ids behind an entry are greater. -/
theorem below {e : UInt32 × Nat} {rest : List (UInt32 × Nat)} (counted : Counted (e :: rest)) :
    ∀ e' ∈ rest, e.1 < e'.1 :=
  (List.pairwise_cons.mp counted.ascending).1

/-- The ids that are listed are those with a count. -/
theorem mem_keys (counted : Counted entries) :
    id ∈ entries.map (·.1) ↔ 0 < (entries.lookup id).getD 0 := by
  induction entries with
  | nil => simp
  | cons e rest ih =>
    obtain ⟨other, n⟩ := e
    rw [List.map_cons, List.mem_cons, lookup_cons_eq_ite]
    split
    · next same => simp [same, counted.positive _ (List.mem_cons_self ..)]
    · next differ => simp [differ, ih counted.tail]

/-! ## One registration more or less -/

theorem mem_increment {e : UInt32 × Nat} (mem : e ∈ increment id entries) :
    e.1 = id ∨ ∃ e' ∈ entries, e'.1 = e.1 := by
  fun_induction increment id entries with
  | case1 => exact .inl (congrArg Prod.fst (List.mem_singleton.mp mem))
  | case2 first n rest before =>
    rcases List.mem_cons.mp mem with here | there
    · exact .inl (congrArg Prod.fst here)
    · exact .inr ⟨e, there, rfl⟩
  | case3 n rest =>
    rcases List.mem_cons.mp mem with here | there
    · exact .inl (congrArg Prod.fst here)
    · exact .inr ⟨e, List.mem_cons_of_mem _ there, rfl⟩
  | case4 first n rest _ _ ih =>
    rcases List.mem_cons.mp mem with here | there
    · exact .inr ⟨e, here ▸ List.mem_cons_self .., rfl⟩
    · refine (ih there).imp_right ?_
      rintro ⟨e', mem', same⟩
      exact ⟨e', List.mem_cons_of_mem _ mem', same⟩

theorem mem_decrement {e : UInt32 × Nat} (mem : e ∈ decrement id entries) :
    ∃ e' ∈ entries, e'.1 = e.1 := by
  fun_induction decrement id entries with
  | case1 => simp at mem
  | case2 n rest last => exact ⟨e, List.mem_cons_of_mem _ mem, rfl⟩
  | case3 n rest more =>
    rcases List.mem_cons.mp mem with here | there
    · exact ⟨(id, n), List.mem_cons_self .., (congrArg Prod.fst here).symm⟩
    · exact ⟨e, List.mem_cons_of_mem _ there, rfl⟩
  | case4 first n rest _ ih =>
    rcases List.mem_cons.mp mem with here | there
    · exact ⟨e, here ▸ List.mem_cons_self .., rfl⟩
    · obtain ⟨e', mem', same⟩ := ih there
      exact ⟨e', List.mem_cons_of_mem _ mem', same⟩

theorem increment (counted : Counted entries) : Counted (increment id entries) := by
  fun_induction Sessions.increment id entries with
  | case1 => exact nil.cons (List.forall_mem_nil _) Nat.one_pos
  | case2 first n rest before =>
    refine counted.cons (List.forall_mem_cons.mpr ⟨before, fun e mem => ?_⟩) Nat.one_pos
    exact UInt32.lt_trans before (counted.below e mem)
  | case3 n rest => exact counted.tail.cons counted.below (Nat.succ_pos n)
  | case4 first n rest notBefore differ ih =>
    refine (ih counted.tail).cons (fun e mem => ?_) (counted.positive _ (List.mem_cons_self ..))
    rcases mem_increment mem with here | ⟨e', mem', same⟩
    · rw [here]
      exact UInt32.lt_of_le_of_ne (UInt32.not_lt.mp notBefore) (Ne.symm differ)
    · exact same ▸ counted.below e' mem'

theorem decrement (counted : Counted entries) : Counted (decrement id entries) := by
  fun_induction Sessions.decrement id entries with
  | case1 => exact nil
  | case2 n rest last => exact counted.tail
  | case3 n rest more => exact counted.tail.cons counted.below (by omega)
  | case4 first n rest differ ih =>
    refine (ih counted.tail).cons (fun e mem => ?_) (counted.positive _ (List.mem_cons_self ..))
    obtain ⟨e', mem', same⟩ := mem_decrement mem
    exact same ▸ counted.below e' mem'

theorem lookup_increment (counted : Counted entries) (other : UInt32) :
    (Sessions.increment id entries).lookup other =
      if other = id then some ((entries.lookup id).getD 0 + 1) else entries.lookup other := by
  fun_induction Sessions.increment id entries with
  | case1 => simp [lookup_cons_eq_ite]
  | case2 first n rest before =>
    have absent : List.lookup id ((first, n) :: rest) = none := by
      refine lookup_below (List.forall_mem_cons.mpr ⟨before, fun e mem => ?_⟩)
      exact UInt32.lt_trans before (counted.below e mem)
    rw [lookup_cons_eq_ite, absent]
    rfl
  | case3 n rest =>
    simp only [lookup_cons_eq_ite, if_true, Option.getD_some]
    split
    · rfl
    · rfl
  | case4 first n rest _ differ ih =>
    rw [lookup_cons_eq_ite, lookup_cons_eq_ite, lookup_cons_eq_ite, ih counted.tail, if_neg differ]
    split
    · next same => rw [if_neg (same ▸ Ne.symm differ)]
    · rfl

theorem lookup_decrement (counted : Counted entries) (other : UInt32) :
    ((Sessions.decrement id entries).lookup other).getD 0 =
      if other = id then (entries.lookup id).getD 0 - 1 else (entries.lookup other).getD 0 := by
  fun_induction Sessions.decrement id entries with
  | case1 => simp
  | case2 n rest last =>
    rw [lookup_cons_eq_ite, lookup_cons_eq_ite, if_pos rfl]
    split
    · next same =>
      rw [same, lookup_below counted.below, Option.getD_none, Option.getD_some]
      omega
    · rfl
  | case3 n rest more =>
    simp only [lookup_cons_eq_ite, if_true, Option.getD_some]
    split
    · rfl
    · rfl
  | case4 first n rest differ ih =>
    rw [lookup_cons_eq_ite, lookup_cons_eq_ite, lookup_cons_eq_ite, if_neg differ]
    split
    · next same => rw [if_neg (same ▸ Ne.symm differ)]
    · exact ih counted.tail

end Counted

/-! ## Registries -/

/-- In the order and with the counts that the operations keep. -/
def Kept (s : Sessions) : Prop := Counted s.entries

namespace Kept

theorem empty : Kept {} := Counted.nil

theorem clear (s : Sessions) : s.clear.Kept := Counted.nil

theorem register (kept : s.Kept) (id : UInt32) : (s.register id).Kept := Counted.increment kept

theorem unregister (kept : s.Kept) (id : UInt32) : (s.unregister id).Kept :=
  Counted.decrement kept

theorem count_register (kept : s.Kept) (id other : UInt32) :
    (s.register id).count other = if other = id then s.count id + 1 else s.count other := by
  rw [count, Sessions.register, Counted.lookup_increment kept]
  split
  · rfl
  · rfl

theorem count_unregister (kept : s.Kept) (id other : UInt32) :
    (s.unregister id).count other = if other = id then s.count id - 1 else s.count other :=
  Counted.lookup_decrement kept other

theorem mem_ids (kept : s.Kept) (id : UInt32) : id ∈ s.ids ↔ 0 < s.count id :=
  Counted.mem_keys kept

theorem ids_ascend (kept : s.Kept) : s.ids.Pairwise (· < ·) :=
  List.pairwise_map.mpr kept.ascending

end Kept

end Tangible.Sessions
