import Mathlib.Data.List.Basic

/-!
# Lists

What the proofs use of lists and the library does not have.
-/

namespace Tangible

variable {α β : Type}

theorem lookup_cons_eq_ite [DecidableEq α] (key : α) (value : β) (rest : List (α × β)) (a : α) :
    ((key, value) :: rest).lookup a = if a = key then some value else rest.lookup a := by
  rw [List.lookup_cons]
  by_cases same : a = key
  · simp [same]
  · simp [same, beq_eq_false_iff_ne.mpr same]

theorem lookup_eq_some_of_mem [DecidableEq α] {l : List (α × β)} (nodup : (l.map (·.1)).Nodup)
    {e : α × β} (mem : e ∈ l) : l.lookup e.1 = some e.2 := by
  induction l with
  | nil => exact absurd mem List.not_mem_nil
  | cons first l ih =>
    rw [List.map_cons, List.nodup_cons] at nodup
    rw [lookup_cons_eq_ite]
    rcases List.mem_cons.mp mem with rfl | behind
    · exact if_pos rfl
    · have apart : e.1 ≠ first.1 := fun same => nodup.1 (same ▸ List.mem_map_of_mem behind)
      rw [if_neg apart, ih nodup.2 behind]

theorem idxOf_map [DecidableEq α] [DecidableEq β] {f : α → β} {l : List α} {a : α}
    (inj : ∀ other ∈ l, f other = f a ↔ other = a) : (l.map f).idxOf (f a) = l.idxOf a := by
  induction l with
  | nil => rfl
  | cons first l ih =>
    rw [List.forall_mem_cons] at inj
    have same : (f first == f a) = (first == a) := by
      rw [Bool.eq_iff_iff, beq_iff_eq, beq_iff_eq]
      exact inj.1
    rw [List.map_cons, List.idxOf_cons, List.idxOf_cons, ih inj.2, same]

theorem idxOf_eq_iff [DecidableEq α] {l : List α} (nodup : l.Nodup) {a b : α} (mem : a ∈ l)
    {n : Nat} (place : l[n]? = some b) : l.idxOf a = n ↔ a = b := by
  obtain ⟨inside, rfl⟩ := List.getElem?_eq_some_iff.mp place
  rw [← List.idxOf_inj mem, nodup.idxOf_getElem]

theorem idxOf_concat [DecidableEq α] {l : List α} {a : α} (fresh : a ∉ l) :
    (l ++ [a]).idxOf a = l.length := by
  simp [List.idxOf_append_of_notMem fresh]

theorem map_fst_update (l : List (α × β)) (p : α → Prop) [DecidablePred p] (f : β → β) :
    (l.map fun e => if p e.1 then (e.1, f e.2) else e).map (·.1) = l.map (·.1) := by
  rw [List.map_map]
  refine List.map_congr_left fun e _ => ?_
  rw [Function.comp_apply]
  split <;> rfl

theorem map_fst_zip_eq_take (k : List α) (l : List β) :
    (k.zip l).map Prod.fst = k.take l.length := by
  rw [List.zip_eq_zip_take_min, List.map_fst_zip (by simp), Nat.min_comm, ← List.take_eq_take_min]

theorem insertIdx_append_length (before behind : List α) (a : α) :
    (before ++ behind).insertIdx before.length a = before ++ a :: behind := by
  induction before with
  | nil => rfl
  | cons first before ih => exact congrArg (first :: ·) ih

theorem set_map_eq (f f' : α → β) {l : List α} {n : Nat} {a : α}
    (place : l[n]? = some a) (elsewhere : ∀ m b, l[m]? = some b → m ≠ n → f' b = f b) :
    (l.map f).set n (f' a) = l.map f' := by
  refine List.ext_getElem? fun m => ?_
  rw [List.getElem?_set, List.getElem?_map, List.getElem?_map, List.length_map]
  by_cases here : n = m
  · subst here
    obtain ⟨inside, -⟩ := List.getElem?_eq_some_iff.mp place
    rw [if_pos rfl, if_pos inside, place, Option.map_some]
  · rw [if_neg here]
    cases there : l[m]? with
    | none => rfl
    | some b => rw [Option.map_some, Option.map_some, elsewhere m b there (Ne.symm here)]

/-- Two lists have the same first item if the items of every key come in the same order and the first
keys are the same. What is behind the first items is in the same order again. -/
theorem cons_of_ordered [DecidableEq α] (f : β → α) {x x' : β} {l l' : List β} (same : f x = f x')
    (ordered : ∀ a, (x :: l).filter (f · = a) = (x' :: l').filter (f · = a)) :
    x = x' ∧ ∀ a, l.filter (f · = a) = l'.filter (f · = a) := by
  have first := ordered (f x)
  rw [List.filter_cons_of_pos (by simp), List.filter_cons_of_pos (by simp [same])] at first
  obtain ⟨rfl, -⟩ := List.cons.inj first
  refine ⟨rfl, fun a => ?_⟩
  have both := ordered a
  rw [List.filter_cons, List.filter_cons] at both
  split at both
  · exact (List.cons.inj both).2
  · exact both

theorem length_le_flatMap {l : List α} {r : α → List β} (some : ∀ a, r a ≠ []) :
    l.length ≤ (l.flatMap r).length := by
  induction l with
  | nil => simp
  | cons a l ih =>
    have here := List.length_pos_iff.mpr (some a)
    simp only [List.flatMap_cons, List.length_append, List.length_cons]
    omega

theorem replicate_append_cons (n : Nat) (a : α) (l : List α) :
    List.replicate n a ++ a :: l = a :: (List.replicate n a ++ l) := by
  rw [List.append_cons, ← List.replicate_succ', List.replicate_succ, List.cons_append]

theorem all_replicate (f : α → Bool) (n : Nat) (x : α) :
    (List.replicate n x).all f = (n == 0 || f x) := by
  cases n <;> simp

theorem zip_append_of_length_eq (l rest : List α) {m : List β}
    (same : l.length = m.length) : (l ++ rest).zip m = l.zip m := by
  calc
    (l ++ rest).zip m = (l ++ rest).zip (m ++ []) := by rw [List.append_nil]
    _ = l.zip m ++ rest.zip [] := List.zip_append same
    _ = l.zip m := by rw [List.zip_nil_right, List.append_nil]

/-- Where everything is related to nothing but itself, lists that are related are equal. -/
theorem eq_of_forall₂ {R : α → α → Prop} {l l' : List α} (rigid : ∀ a ∈ l, ∀ a', R a a' → a' = a)
    (related : List.Forall₂ R l l') : l' = l := by
  induction related with
  | nil => rfl
  | cons first _ ih =>
    rw [List.forall_mem_cons] at rigid
    rw [rigid.1 _ first, ih rigid.2]

end Tangible
