import Mathlib.Data.List.Basic
import Tangible.Bundle.Store
import Tangible.Proofs.Bundle.Containment
import Tangible.Proofs.Bundle.Framed
import Tangible.Proofs.Lists

/-!
# The block of containers

The containers found for the pointers of a bundle come in ascending order, none is empty, and their
contents together are the sessions of the pointers that lie in a hull of another session, each as
often as there are such pointers (`Containment.found_containers`). They are told of by one block of
messages, which is inserted message by message at one place of the bundle (`Bundle.insertAll?_eq`).

`Containment.adds_block` says this of a processor run between two cells of a store. The cells may be
the same, and what the output held before does not matter.
-/

namespace Tangible

instance (hull : Outline) (p : Pointer) : Decidable (hull.Contains p) :=
  decidable_of_iff _ Outline.contains_iff

namespace Bundle

variable {b : Bundle}

/-- The pointer lies in a hull of another session. -/
def Surrounds (b : Bundle) (p : Pointer) : Prop :=
  ∃ hull, .convexHull hull ∈ b.messages ∧ hull.Contains p

theorem surrounds_iff {p : Pointer} : b.Surrounds p ↔ ∃ hull ∈ b.hulls, hull.Contains p := by
  simp only [Surrounds, mem_hulls]

instance (b : Bundle) (p : Pointer) : Decidable (b.Surrounds p) :=
  decidable_of_iff _ surrounds_iff.symm

/-- A container is found for the pointers that lie in a hull, and it holds their session. -/
theorem map_contained_container? (p : Pointer) :
    (b.container? p.position p.identity.sessionId).map Container.contained =
      if b.Surrounds p then some [p.identity.sessionId] else none := by
  split
  · next surrounded =>
    obtain ⟨hull, mem, inside⟩ := surrounds_iff.mp surrounded
    obtain ⟨first, around⟩ := exists_firstAround mem inside
    rw [container?_eq_some_iff.mpr ⟨first, around, rfl⟩]
    rfl
  · next apart =>
    rw [Option.map_eq_none_iff, Option.eq_none_iff_forall_ne_some]
    intro c found
    obtain ⟨hull, ⟨before, after, split, inside, -⟩, -⟩ := container?_eq_some_iff.mp found
    exact apart (surrounds_iff.mpr ⟨hull, by simp [split], inside⟩)

/-! ## Insertion -/

/-- Inserts messages one behind the other, beginning at the given place. -/
def insertAll? (b : Bundle) (place : Nat) : List Message → Except Error Bundle
  | [] => .ok b
  | m :: rest => (b.insert? place m).bind fun b => b.insertAll? (place + 1) rest

/-- The places are in range, however many messages were inserted before. -/
theorem insertAll?_eq {before behind : List Message} (added : List Message)
    (whole : b.messages = before ++ behind) :
    b.insertAll? before.length added = .ok ⟨before ++ added ++ behind⟩ := by
  induction added generalizing b before with
  | nil =>
    rw [List.append_nil, ← whole]
    rfl
  | cons m added ih =>
    have inserted : b.insert? before.length m = .ok ⟨before ++ [m] ++ behind⟩ := by
      unfold insert? size
      rw [whole, if_pos (by simp), insertIdx_append_length, List.append_assoc]
      rfl
    have split : (⟨before ++ [m] ++ behind⟩ : Bundle).messages = (before ++ [m]) ++ behind := rfl
    have later := ih split
    unfold insertAll?
    rw [inserted]
    simpa [Except.bind] using later

/-- What stands behind a place is the closing alive list, if there is one. -/
def Closing (b : Bundle) (behind : List Message) : Prop :=
  match b.alive? with
  | some ids => behind = [.alive ids]
  | none => behind = []

end Bundle

namespace Store

variable {s : Store} {cell other : Cell} {b : Bundle}

theorem read_write_self (live : cell.index < s.bundles.length) :
    (s.write cell b).read cell = b := by
  simp [read, write, live]

theorem read_write_of_ne (apart : other ≠ cell) : (s.write cell b).read other = s.read other := by
  have : cell.index ≠ other.index := fun same => apart (congrArg Cell.mk same).symm
  simp [read, write, this]

end Store

namespace Containment

variable {found : List (UInt32 × List UInt32)} {id : UInt32} {ids : List UInt32}

/-! ## Ids in order -/

theorem mem_insertId {x : UInt32} : x ∈ insertId id ids ↔ x = id ∨ x ∈ ids := by
  fun_induction insertId id ids with
  | case1 => simp
  | case2 => simp
  | case3 rest => simp
  | case4 other rest _ _ ih =>
    rw [List.mem_cons, List.mem_cons, ih]
    tauto

theorem insertId_ascending (ascending : ids.Pairwise (· < ·)) :
    (insertId id ids).Pairwise (· < ·) := by
  fun_induction insertId id ids with
  | case1 => exact List.pairwise_singleton ..
  | case2 other rest before =>
    refine List.pairwise_cons.mpr ⟨List.forall_mem_cons.mpr ⟨before, fun x mem => ?_⟩, ascending⟩
    exact UInt32.lt_trans before ((List.pairwise_cons.mp ascending).1 x mem)
  | case3 => exact ascending
  | case4 other rest notBefore differ ih =>
    obtain ⟨below, ascending⟩ := List.pairwise_cons.mp ascending
    refine List.pairwise_cons.mpr ⟨fun x mem => ?_, ih ascending⟩
    rcases mem_insertId.mp mem with rfl | mem
    · exact UInt32.lt_of_le_of_ne (UInt32.not_lt.mp notBefore) (Ne.symm differ)
    · exact below x mem

theorem mem_distinct {x : UInt32} : x ∈ distinct ids ↔ x ∈ ids := by
  induction ids with
  | nil => exact Iff.rfl
  | cons id ids ih => rw [distinct, List.foldr_cons, mem_insertId, ← distinct, ih, List.mem_cons]

theorem distinct_ascending (ids : List UInt32) : (distinct ids).Pairwise (· < ·) := by
  induction ids with
  | nil => exact .nil
  | cons id ids ih => exact insertId_ascending ih

/-! ## Containers in order -/

/-- Entries in ascending order of their containers, none of them empty. -/
structure Tidy (found : List (UInt32 × List UInt32)) : Prop where
  ascending : (found.map (·.1)).Pairwise (· < ·)
  nonempty : ∀ entry ∈ found, entry.2 ≠ []

theorem map_fst_hold (contained : List UInt32) :
    (hold id contained found).map (·.1) = insertId id (found.map (·.1)) := by
  fun_induction hold id contained found with
  | case1 => rfl
  | case2 other held rest before => simp [insertId, before]
  | case3 held rest => simp [insertId, UInt32.lt_irrefl]
  | case4 other held rest notBefore differ ih => simp [insertId, notBefore, differ, ih]

theorem nonempty_hold {contained : List UInt32} (some : contained ≠ [])
    (nonempty : ∀ entry ∈ found, entry.2 ≠ []) :
    ∀ entry ∈ hold id contained found, entry.2 ≠ [] := by
  fun_induction hold id contained found with
  | case1 => simpa using some
  | case2 other held rest before => exact List.forall_mem_cons.mpr ⟨some, nonempty⟩
  | case3 held rest =>
    rw [List.forall_mem_cons] at nonempty ⊢
    exact ⟨List.append_ne_nil_of_right_ne_nil _ some, nonempty.2⟩
  | case4 other held rest _ _ ih =>
    rw [List.forall_mem_cons] at nonempty ⊢
    exact ⟨nonempty.1, ih nonempty.2⟩

/-- Nothing that was held is lost. -/
theorem hold_perm (contained : List UInt32) :
    ((hold id contained found).flatMap (·.2)).Perm (found.flatMap (·.2) ++ contained) := by
  fun_induction hold id contained found with
  | case1 => simp
  | case2 other held rest before =>
    rw [List.flatMap_cons]
    exact List.perm_append_comm
  | case3 held rest =>
    rw [List.flatMap_cons, List.flatMap_cons, List.append_assoc, List.append_assoc]
    exact List.perm_append_comm.append_left held
  | case4 other held rest _ _ ih =>
    rw [List.flatMap_cons, List.flatMap_cons, List.append_assoc]
    exact ih.append_left held

theorem Tidy.hold {contained : List UInt32} (tidy : Tidy found) (some : contained ≠ []) :
    Tidy (hold id contained found) := by
  refine ⟨?_, nonempty_hold some tidy.nonempty⟩
  rw [map_fst_hold]
  exact insertId_ascending tidy.ascending

theorem tidy_foldl {cs : List Container} (some : ∀ c ∈ cs, c.contained ≠ []) (tidy : Tidy found) :
    Tidy (cs.foldl (fun found c => hold c.sessionId c.contained found) found) := by
  induction cs generalizing found with
  | nil => exact tidy
  | cons c cs ih =>
    rw [List.forall_mem_cons] at some
    exact ih some.2 (tidy.hold some.1)

theorem foldl_perm (cs : List Container) :
    ((cs.foldl (fun found c => hold c.sessionId c.contained found) found).flatMap (·.2)).Perm
      (found.flatMap (·.2) ++ cs.flatMap Container.contained) := by
  induction cs generalizing found with
  | nil => simp
  | cons c cs ih =>
    rw [List.foldl_cons, List.flatMap_cons, ← List.append_assoc]
    exact ih.trans ((hold_perm c.contained).append_right _)

/-- The containers that are found for the pointers of a bundle. -/
structure Found (b : Bundle) (found : List (UInt32 × List UInt32)) : Prop extends Tidy found where
  inside : ∀ entry ∈ found, ∀ session ∈ entry.2, entry.1 ≠ session ∧
    ∃ p hull, .pointer p ∈ b.messages ∧ .convexHull hull ∈ b.messages ∧
      p.identity.sessionId = session ∧ hull.sessionId = entry.1 ∧
      Polygon.contains? hull.points p.position = .ok true
  complete : (found.flatMap (·.2)).Perm
    ((b.pointers.filter (b.Surrounds ·)).map (·.identity.sessionId))

/-- Each pointer that lies in a hull gives one container with its session. -/
theorem flatMap_contained (b : Bundle) (pointers : List Pointer) :
    (pointers.filterMap fun p => b.container? p.position p.identity.sessionId).flatMap
        Container.contained =
      (pointers.filter (b.Surrounds ·)).map (·.identity.sessionId) := by
  induction pointers with
  | nil => rfl
  | cons p pointers ih =>
    have here := b.map_contained_container? p
    rw [List.filterMap_cons, List.filter_cons]
    split at here
    · next surrounded =>
      obtain ⟨c, found, contained⟩ := Option.map_eq_some_iff.mp here
      simp [surrounded, found, contained, ih]
    · next apart =>
      rw [Option.map_eq_none_iff] at here
      simp [apart, here, ih]

theorem found_containers (b : Bundle) : Found b (containers b) := by
  have some : ∀ c ∈ b.pointers.filterMap fun p => b.container? p.position p.identity.sessionId,
      c.contained ≠ [] := by
    intro c mem
    obtain ⟨p, -, found⟩ := List.mem_filterMap.mp mem
    obtain ⟨hull, -, rfl⟩ := Bundle.container?_eq_some_iff.mp found
    exact List.cons_ne_nil _ _
  refine ⟨tidy_foldl some ⟨.nil, List.forall_mem_nil _⟩, fun entry mem session held => ?_, ?_⟩
  · obtain ⟨p, hull, isPointer, ⟨before, after, split, inside, -⟩, sameHull, samePointer⟩ :=
      lists_containers.mp ⟨entry.2, mem, held⟩
    have isHull : hull ∈ b.hulls := split ▸ List.mem_append_right before List.mem_cons_self
    refine ⟨sameHull ▸ samePointer ▸ inside.1, p, hull, isPointer, Bundle.mem_hulls.mp isHull,
      samePointer, sameHull, inside.2⟩
  · have perm := @foldl_perm []
      (b.pointers.filterMap fun p => b.container? p.position p.identity.sessionId)
    rwa [flatMap_contained] at perm

/-! ## The block -/

/-- An association for each container and the list of all sessions that take part, or nothing where
nothing was found. -/
def Announces (found : List (UInt32 × List UInt32)) (added : List Message) : Prop :=
  (found = [] ∧ added = []) ∨
    (found ≠ [] ∧ ∃ ids,
      added = found.map (fun (id, held) => .container ⟨id, 0, held⟩) ++ [.aliveAssociation ids] ∧
        ids.Pairwise (· < ·) ∧ ∀ id, id ∈ ids ↔ ∃ entry ∈ found, id = entry.1 ∨ id ∈ entry.2)

theorem announces_block (found : List (UInt32 × List UInt32)) : Announces found (block found) := by
  unfold block
  split
  · next none => exact .inl ⟨List.isEmpty_iff.mp none, rfl⟩
  · next some =>
    refine .inr ⟨fun none => some (none ▸ rfl), associated found, rfl, distinct_ascending _, ?_⟩
    intro id
    rw [associated, mem_distinct, List.mem_flatMap]
    simp only [List.mem_cons]

/-- The block stands before the closing alive list, if there is one. -/
theorem insertBlock_eq (b : Bundle) (added : List Message) :
    ∃ before behind, b.messages = before ++ behind ∧ b.Closing behind ∧
      insertBlock b added = ⟨before ++ added ++ behind⟩ := by
  unfold insertBlock Bundle.Closing
  cases closes : b.alive? with
  | some ids =>
    obtain ⟨before, whole⟩ := Bundle.alive?_eq_some_iff.mp closes
    exact ⟨before, [.alive ids], whole, rfl, by simp [whole]⟩
  | none => exact ⟨b.messages, [], by simp, rfl, by simp⟩

/-! ## Runs between cells -/

/-- A run succeeds, changes no cell but the output, and puts there what the input held, with a block
before the closing alive list or at the end. The block can be inserted message by message at one
place, and it announces the containers that are found for the pointers of the input. -/
theorem adds_block (s : Store) (input output : Cell) (live : output.index < s.bundles.length) :
    let b := s.read input
    let after := s.process processor input output
    after.1 = .ok () ∧ (∀ cell, cell ≠ output → after.2.read cell = s.read cell) ∧
      ∃ found added before behind,
        b.messages = before ++ behind ∧ b.Closing behind ∧
          (after.2.read output).messages = before ++ added ++ behind ∧
          b.insertAll? before.length added = .ok (after.2.read output) ∧
          Found b found ∧ Announces found added := by
  intro b after
  obtain ⟨before, behind, whole, closing, inserted⟩ :=
    insertBlock_eq b (block (containers b))
  have written : after.2.read output = ⟨before ++ block (containers b) ++ behind⟩ :=
    (Store.read_write_self live).trans inserted
  refine ⟨rfl, fun cell apart => Store.read_write_of_ne apart, containers b,
    block (containers b), before, behind, whole, closing, ?_, ?_, found_containers b,
    announces_block _⟩
  · rw [written]
  · rw [written]
    exact Bundle.insertAll?_eq _ whole

/-- A closed bundle with a pointer in two hulls, a pointer apart, and a pointer with the session of
the first hull, beside a bundle of another content. -/
def crowded : Store where
  bundles :=
    [⟨overlapping.messages ++
        [.pointer (Sample.pointer 42 ⟨9, 9⟩), .pointer (Sample.pointer 40 ⟨1, 2.5⟩), .alive [40]]⟩,
      Sample.pointers 7 [3]]

theorem adds_block_crowded :
    let b := crowded.read ⟨0⟩
    let copied := crowded.process processor ⟨0⟩ ⟨1⟩
    let changed := crowded.process processor ⟨0⟩ ⟨0⟩
    containers b = [(40, [41]), (50, [40])] ∧
      (copied.1 = .ok () ∧ copied.2.read ⟨0⟩ = b ∧
        ∃ found added, Found b found ∧ Announces found added ∧
          (copied.2.read ⟨1⟩).messages = b.messages.dropLast ++ added ++ [.alive [40]]) ∧
      (changed.1 = .ok () ∧ changed.2.read ⟨1⟩ = Sample.pointers 7 [3] ∧
        ∃ found added, Found b found ∧ Announces found added ∧
          (changed.2.read ⟨0⟩).messages = b.messages.dropLast ++ added ++ [.alive [40]]) := by
  intro b copied changed
  -- the closing alive list leaves one place for the block
  have split : ∀ {before behind : List Message}, b.messages = before ++ behind → b.Closing behind →
      behind = [.alive [40]] ∧ before = b.messages.dropLast := by
    intro before behind whole closing
    have last : behind = [.alive [40]] := closing
    exact ⟨last, by rw [whole, last, List.dropLast_concat]⟩
  obtain ⟨done, kept, found, added, before, behind, whole, closing, written, -, isFound, told⟩ :=
    adds_block crowded ⟨0⟩ ⟨1⟩ (by decide)
  obtain ⟨done', kept', found', added', before', behind', whole', closing', written', -, isFound',
    told'⟩ := adds_block crowded ⟨0⟩ ⟨0⟩ (by decide)
  obtain ⟨rfl, rfl⟩ := split whole closing
  obtain ⟨rfl, rfl⟩ := split whole' closing'
  exact ⟨by decide +kernel, ⟨done, kept ⟨0⟩ (by decide), found, added, isFound, told, written⟩,
    done', kept' ⟨1⟩ (by decide), found', added', isFound', told', written'⟩

end Containment

end Tangible
