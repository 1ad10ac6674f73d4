import Mathlib.Order.Bounds.Basic
import Mathlib.Logic.Function.Basic
import Tangible.Proofs.Session

/-!
# Registrations over whole runs

Beside a registry an onlooker keeps one number for each id: one more for a registration, one less
for a registration that is taken back, and all of them zero once the registry is cleared
(`Sessions.tally`). In every run the registry counts what the onlooker counts (`Sessions.Agrees`).

The next id comes from the ascending list of the registered ids. Behind the greatest of them there
is room unless it is the greatest of all numbers; then the first gap of the list is the least free
id (`Sessions.firstGap_isLeast`). `Sessions.counts_registrations` puts both together.
-/

namespace Tangible.Sessions

variable {s : Sessions} {counter : UInt32 → Nat}

/-! ## The next id -/

/-- The last id of an ascending list is the greatest. -/
theorem isGreatest_of_getLast? {l : List UInt32} (ascending : l.Pairwise (· < ·))
    {greatest : UInt32} (last : l.getLast? = some greatest) :
    IsGreatest {id | id ∈ l} greatest := by
  obtain ⟨before, rfl⟩ := List.getLast?_eq_some_iff.mp last
  refine ⟨List.mem_append_right _ (List.mem_singleton_self _), fun id mem => ?_⟩
  rcases List.mem_append.mp mem with front | here
  · exact UInt32.le_of_lt
      ((List.pairwise_append.mp ascending).2.2 id front greatest (List.mem_singleton_self _))
  · exact UInt32.le_of_eq (List.mem_singleton.mp here)

/-- The first gap is the least id from the candidate on that the list leaves out. The candidate does
not wrap on its way there, because it stays below an id that is free. -/
theorem firstGap_isLeast {l : List UInt32} {candidate free : UInt32}
    (ascending : l.Pairwise (· < ·)) (above : ∀ id ∈ l, candidate ≤ id)
    (reached : candidate ≤ free) (absent : free ∉ l) :
    IsLeast {id | candidate ≤ id ∧ id ∉ l} (firstGap candidate l) := by
  induction l generalizing candidate with
  | nil => exact ⟨⟨UInt32.le_refl _, List.not_mem_nil⟩, fun id inside => inside.1⟩
  | cons id rest ih =>
    obtain ⟨below, ascending⟩ := List.pairwise_cons.mp ascending
    obtain ⟨here, above⟩ := List.forall_mem_cons.mp above
    obtain ⟨differs, absent⟩ := not_or.mp (mt List.mem_cons.mpr absent)
    rw [firstGap]
    split
    · next same =>
      -- one more than the candidate does not wrap, since something that is not it lies above
      have behind {other : UInt32} (from_candidate : candidate ≤ other) (apart : other ≠ id) :
          candidate < candidate + 1 ∧ candidate + 1 ≤ other := by grind
      have room := behind reached differs
      have above : ∀ other ∈ rest, candidate + 1 ≤ other := fun other mem =>
        (behind (above other mem) (UInt32.ne_of_lt (below other mem)).symm).2
      obtain ⟨⟨later, gap⟩, least⟩ := ih ascending above room.2 absent
      refine ⟨⟨UInt32.le_trans (UInt32.le_of_lt room.1) later, fun mem => ?_⟩, ?_⟩
      · rcases List.mem_cons.mp mem with first | mem
        · grind
        · exact gap mem
      · rintro other ⟨from_candidate, outside⟩
        obtain ⟨apart, outside⟩ := not_or.mp (mt List.mem_cons.mpr outside)
        exact least ⟨(behind from_candidate apart).2, outside⟩
    · next apart =>
      refine ⟨⟨UInt32.le_refl _, fun mem => ?_⟩, fun other inside => inside.1⟩
      rcases List.mem_cons.mp mem with first | mem
      · exact apart first.symm
      · have := below candidate mem
        grind

namespace Kept

theorem isRegistered_iff (kept : s.Kept) (id : UInt32) : s.isRegistered id ↔ 0 < s.count id := by
  rw [← kept.mem_ids, isRegistered, List.lookup_isSome_iff, ids, List.mem_map]
  refine exists_congr fun e => and_congr_right fun _ => ?_
  rw [beq_iff_eq, eq_comm]

theorem nextId_of_empty (kept : s.Kept) (none : ∀ id, s.count id = 0) : s.nextId = 1 := by
  have empty : s.ids = [] := List.eq_nil_iff_forall_not_mem.mpr fun id mem =>
    Nat.ne_of_gt ((kept.mem_ids id).mp mem) (none id)
  rw [nextId, empty]
  rfl

theorem isGreatest_ids (kept : s.Kept) {greatest : UInt32} :
    s.ids.getLast? = some greatest ↔ IsGreatest {id | 0 < s.count id} greatest := by
  have same : {id | id ∈ s.ids} = {id | 0 < s.count id} := Set.ext kept.mem_ids
  constructor
  · intro last
    exact same ▸ isGreatest_of_getLast? kept.ids_ascend last
  · intro isGreatest
    have mem : greatest ∈ s.ids := (kept.mem_ids greatest).mpr isGreatest.1
    obtain ⟨other, last⟩ :=
      Option.isSome_iff_exists.mp (List.getLast?_isSome.mpr (List.ne_nil_of_mem mem))
    have isGreatest' := same ▸ isGreatest_of_getLast? kept.ids_ascend last
    rw [last, UInt32.le_antisymm (isGreatest.2 isGreatest'.1) (isGreatest'.2 isGreatest.1)]

theorem nextId_of_greatest (kept : s.Kept) {greatest : UInt32}
    (isGreatest : IsGreatest {id | 0 < s.count id} greatest) (room : greatest ≠ 0xffffffff) :
    s.nextId = greatest + 1 := by
  rw [nextId, kept.isGreatest_ids.mpr isGreatest]
  exact if_neg room

theorem nextId_of_full (kept : s.Kept) (full : 0 < s.count 0xffffffff) {free : UInt32}
    (session : free ≠ 0) (unused : s.count free = 0) :
    IsLeast {id | id ≠ 0 ∧ s.count id = 0} s.nextId := by
  have isGreatest : IsGreatest {id | 0 < s.count id} 0xffffffff := ⟨full, fun id _ => by grind⟩
  have next : s.nextId = firstGap 1 (s.ids.filter (· ≠ 0)) := by
    rw [nextId, kept.isGreatest_ids.mpr isGreatest]
    exact if_pos rfl
  have inside (id : UInt32) : id ∈ s.ids.filter (· ≠ 0) ↔ 0 < s.count id ∧ id ≠ 0 := by
    rw [List.mem_filter, kept.mem_ids, decide_eq_true_iff]
  have same : {id | 1 ≤ id ∧ id ∉ s.ids.filter (· ≠ 0)} = {id | id ≠ 0 ∧ s.count id = 0} := by
    refine Set.ext fun id => ?_
    have positive : 1 ≤ id ↔ id ≠ 0 := by grind
    rw [Set.mem_ofPred_eq, Set.mem_ofPred_eq, inside, positive]
    refine and_congr_right fun session => ?_
    rw [and_iff_left session, Nat.pos_iff_ne_zero, not_not]
  rw [next, ← same]
  have above : ∀ id ∈ s.ids.filter (· ≠ 0), 1 ≤ id := fun id mem => by
    have := ((inside id).mp mem).2
    grind
  have reached : 1 ≤ free := by grind
  have absent : free ∉ s.ids.filter (· ≠ 0) := by
    rw [inside]
    omega
  exact firstGap_isLeast (kept.ids_ascend.filter _) above reached absent

/-- As long as an id is left, the next id is one that is free. -/
theorem nextId_free (kept : s.Kept) {free : UInt32} (session : free ≠ 0)
    (unused : s.count free = 0) : s.nextId ≠ 0 ∧ s.count s.nextId = 0 := by
  by_cases full : 0 < s.count 0xffffffff
  · exact (kept.nextId_of_full full session unused).1
  · cases last : s.ids.getLast? with
    | none =>
      rw [List.getLast?_eq_none_iff] at last
      have none (id : UInt32) : s.count id = 0 := by
        have := mt (kept.mem_ids id).mpr (last ▸ List.not_mem_nil)
        omega
      rw [kept.nextId_of_empty none]
      exact ⟨by decide, none 1⟩
    | some greatest =>
      have isGreatest := kept.isGreatest_ids.mp last
      have room : greatest ≠ 0xffffffff := fun same => full (same ▸ isGreatest.1)
      rw [kept.nextId_of_greatest isGreatest room]
      refine ⟨by grind, ?_⟩
      by_contra used
      have := isGreatest.2 (Nat.pos_of_ne_zero used)
      grind

end Kept

/-! ## Runs -/

inductive Call where
  | register (id : UInt32)
  | unregister (id : UInt32)
  | next
  /-- Registers the next id. -/
  | auto
  | clear

inductive Answer where
  | count (n : Nat)
  | id (id : UInt32)
  | done
deriving DecidableEq

/-- What a call answers, and the registry behind it. -/
def call (s : Sessions) : Call → Answer × Sessions
  | .register id => (.count ((s.register id).count id), s.register id)
  | .unregister id => (.count ((s.unregister id).count id), s.unregister id)
  | .next => (.id s.nextId, s)
  | .auto => (.id s.nextId, s.register s.nextId)
  | .clear => (.done, s.clear)

/-- What an onlooker counts who sees the calls and their answers. -/
def tally (counter : UInt32 → Nat) : Call → Answer → UInt32 → Nat
  | .register id, _ => Function.update counter id (counter id + 1)
  | .unregister id, _ => Function.update counter id (counter id - 1)
  | .auto, .id id => Function.update counter id (counter id + 1)
  | .clear, _ => fun _ => 0
  | _, _ => counter

def run : Sessions → (UInt32 → Nat) → List Call → Sessions × (UInt32 → Nat)
  | s, counter, [] => (s, counter)
  | s, counter, c :: rest => run (s.call c).2 (tally counter c (s.call c).1) rest

/-- What a registry has to do with the numbers of an onlooker. -/
structure Agrees (s : Sessions) (counter : UInt32 → Nat) : Prop where
  kept : s.Kept
  count : ∀ id, s.count id = counter id

namespace Agrees

theorem empty : Agrees {} fun _ => 0 := ⟨.empty, fun _ => rfl⟩

theorem register (agrees : s.Agrees counter) (id : UInt32) :
    (s.register id).Agrees (Function.update counter id (counter id + 1)) := by
  refine ⟨agrees.kept.register id, fun other => ?_⟩
  rw [agrees.kept.count_register, Function.update_apply, agrees.count, agrees.count]

theorem unregister (agrees : s.Agrees counter) (id : UInt32) :
    (s.unregister id).Agrees (Function.update counter id (counter id - 1)) := by
  refine ⟨agrees.kept.unregister id, fun other => ?_⟩
  rw [agrees.kept.count_unregister, Function.update_apply, agrees.count, agrees.count]

theorem call (agrees : s.Agrees counter) (c : Call) :
    (s.call c).2.Agrees (tally counter c (s.call c).1) := by
  cases c with
  | register id => exact agrees.register id
  | unregister id => exact agrees.unregister id
  | next => exact agrees
  | auto => exact agrees.register s.nextId
  | clear => exact ⟨.clear s, fun _ => rfl⟩

theorem run (agrees : s.Agrees counter) (calls : List Call) :
    (Sessions.run s counter calls).1.Agrees (Sessions.run s counter calls).2 := by
  induction calls generalizing s counter with
  | nil => exact agrees
  | cons c rest ih => exact ih (agrees.call c)

end Agrees

/-- In every run the registry counts the registrations that were not taken back, registers those
ids that are counted, and answers a registration with the new count. While an id is left, the next
one is free: the greatest registered id and one more, or the least free id once the greatest of all
is taken. Registering it on the spot touches no other id. -/
theorem counts_registrations (calls : List Call) :
    let (s, counter) := run {} (fun _ => 0) calls
    (∀ id, s.count id = counter id ∧ (s.isRegistered id ↔ 0 < counter id) ∧
      (s.call (.register id)).1 = .count (counter id + 1) ∧
      (s.call (.unregister id)).1 = .count (counter id - 1)) ∧
    ∀ free, free ≠ 0 → s.isRegistered free = false →
      s.nextId ≠ 0 ∧ s.isRegistered s.nextId = false ∧ s.call .next = (.id s.nextId, s) ∧
      ((∀ id, s.isRegistered id = false) → s.nextId = 1) ∧
      (∀ greatest, IsGreatest {id | s.isRegistered id} greatest → greatest ≠ 0xffffffff →
        s.nextId = greatest + 1) ∧
      (s.isRegistered 0xffffffff → IsLeast {id | id ≠ 0 ∧ s.isRegistered id = false} s.nextId) ∧
      ∃ s', s.call .auto = (.id s.nextId, s') ∧ s'.count s.nextId = 1 ∧
        ∀ other, other ≠ s.nextId → s'.count other = s.count other := by
  have agrees := Agrees.empty.run calls
  generalize run {} (fun _ => 0) calls = outcome at agrees
  obtain ⟨s, counter⟩ := outcome
  have kept := agrees.kept
  have free_iff (id : UInt32) : s.isRegistered id = false ↔ s.count id = 0 := by
    rw [← Bool.not_eq_true, kept.isRegistered_iff, Nat.pos_iff_ne_zero, not_not]
  refine ⟨fun id => ⟨agrees.count id, ?_, ?_, ?_⟩, fun free session unused => ?_⟩
  · rw [kept.isRegistered_iff, agrees.count]
  · rw [call, kept.count_register, if_pos rfl, agrees.count]
  · rw [call, kept.count_unregister, if_pos rfl, agrees.count]
  · simp only [free_iff, kept.isRegistered_iff] at unused ⊢
    obtain ⟨session', unused'⟩ := kept.nextId_free session unused
    refine ⟨session', unused', rfl, kept.nextId_of_empty, fun greatest => kept.nextId_of_greatest,
      fun full => kept.nextId_of_full full session unused, _, rfl, ?_, fun other apart => ?_⟩
    · rw [kept.count_register, if_pos rfl, unused']
    · rw [kept.count_register, if_neg apart]

/-- The greatest of all ids is registered, and so are two ids behind which the next one is found. -/
def wrapped : List Call := [.register 0xffffffff, .auto, .register 0, .auto, .unregister 1]

theorem counts_registrations_wrapped :
    let s := (run {} (fun _ => 0) wrapped).1
    s.ids = [0, 2, 0xffffffff] ∧ s.nextId = 1 ∧
      IsLeast {id | id ≠ 0 ∧ s.isRegistered id = false} s.nextId := by
  have free : (run {} (fun _ => 0) wrapped).1.isRegistered 7 = false := by decide
  obtain ⟨-, -, -, -, -, least, -⟩ := (counts_registrations wrapped).2 7 (by decide) free
  exact ⟨by decide, by decide, least (by decide)⟩

end Tangible.Sessions
