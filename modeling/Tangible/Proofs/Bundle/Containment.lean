import Mathlib.Data.List.Basic
import Tangible.Bundle.Containment
import Tangible.Bundle.Sample

/-!
# Containers of pointers

The search for a container ends at the first hull that holds the pointer
(`Bundle.container?_eq_some_iff`), and the containers of one session are joined
(`Containment.lists_hold`). So the processor adds the pairs of a pointer's session and the session
of the first hull around it, and nothing else (`Containment.associates_iff`).

A pointer is listed by the first hull around it. Where hulls overlap, the others are left without
it (`Containment.second_hull_left_out`), and `Containment.listed_by_first_hull` says exactly when.
-/

namespace Tangible

/-- The hull has another session than the pointer and holds it. -/
def Outline.Contains (hull : Outline) (p : Pointer) : Prop :=
  hull.sessionId ≠ p.identity.sessionId ∧ Polygon.contains? hull.points p.position = .ok true

theorem Outline.holds_iff {o : Outline} {p : Point2} :
    o.holds p ↔ Polygon.contains? o.points p = .ok true := by
  rw [holds]
  cases Polygon.contains? o.points p with
  | ok inside => simp
  | error defect => simp

theorem Outline.contains_iff {o : Outline} {p : Pointer} :
    (o.sessionId ≠ p.identity.sessionId && o.holds p.position) = true ↔ o.Contains p := by
  rw [Bool.and_eq_true, decide_eq_true_iff, holds_iff, Contains]

namespace Bundle

variable {b : Bundle} {p : Pointer} {hull : Outline}

theorem mem_hulls : hull ∈ b.hulls ↔ .convexHull hull ∈ b.messages := by
  rw [hulls, List.mem_filterMap]
  constructor
  · rintro ⟨m, mem, found⟩
    split at found
    · exact Option.some.inj found ▸ mem
    · cases found
  · exact fun mem => ⟨_, mem, rfl⟩

theorem mem_pointers : p ∈ b.pointers ↔ .pointer p ∈ b.messages := by
  rw [pointers, List.mem_filterMap]
  constructor
  · rintro ⟨m, mem, found⟩
    split at found
    · exact Option.some.inj found ▸ mem
    · cases found
  · exact fun mem => ⟨_, mem, rfl⟩

/-- The hull holds the pointer, and none before it does. -/
def FirstAround (b : Bundle) (p : Pointer) (hull : Outline) : Prop :=
  ∃ before after, b.hulls = before ++ hull :: after ∧ hull.Contains p ∧
    ∀ earlier ∈ before, ¬ earlier.Contains p

/-- A container association of the bundle lists the session under the container. -/
def Associates (b : Bundle) (container session : UInt32) : Prop :=
  ∃ c, .container c ∈ b.messages ∧ c.sessionId = container ∧ session ∈ c.contained

theorem find?_hulls_eq_some_iff :
    (b.hulls.find? fun hull => hull.sessionId ≠ p.identity.sessionId && hull.holds p.position) =
      some hull ↔ b.FirstAround p hull := by
  rw [List.find?_eq_some_iff_append, FirstAround, Outline.contains_iff]
  simp only [Bool.not_eq_true', ← Bool.not_eq_true, Outline.contains_iff]
  constructor
  · rintro ⟨inside, before, after, split, none⟩
    exact ⟨before, after, split, inside, none⟩
  · rintro ⟨before, after, split, inside, none⟩
    exact ⟨inside, before, after, split, none⟩

theorem container?_eq_some_iff {c : Container} :
    b.container? p.position p.identity.sessionId = some c ↔
      ∃ hull, b.FirstAround p hull ∧ c = ⟨hull.sessionId, 0, [p.identity.sessionId]⟩ := by
  rw [container?, Option.map_eq_some_iff]
  exact exists_congr fun hull => and_congr find?_hulls_eq_some_iff eq_comm

/-- A pointer that lies in a hull lies in a first one. -/
theorem exists_firstAround (mem : hull ∈ b.hulls) (inside : hull.Contains p) :
    ∃ first, b.FirstAround p first := by
  have found : (b.hulls.find? fun hull =>
      hull.sessionId ≠ p.identity.sessionId && hull.holds p.position).isSome :=
    List.find?_isSome.mpr ⟨hull, mem, Outline.contains_iff.mpr inside⟩
  obtain ⟨first, found⟩ := Option.isSome_iff_exists.mp found
  exact ⟨first, find?_hulls_eq_some_iff.mp found⟩

end Bundle

namespace Containment

variable {found : List (UInt32 × List UInt32)} {container session : UInt32}

/-! ## The containers -/

/-- An entry for the container lists the session. -/
def Lists (found : List (UInt32 × List UInt32)) (container session : UInt32) : Prop :=
  ∃ held, (container, held) ∈ found ∧ session ∈ held

theorem lists_cons {entry : UInt32 × List UInt32} :
    Lists (entry :: found) container session ↔
      (entry.1 = container ∧ session ∈ entry.2) ∨ Lists found container session := by
  constructor
  · rintro ⟨held, mem, inside⟩
    rcases List.mem_cons.mp mem with rfl | mem
    · exact .inl ⟨rfl, inside⟩
    · exact .inr ⟨held, mem, inside⟩
  · rintro (⟨rfl, inside⟩ | ⟨held, mem, inside⟩)
    · exact ⟨_, List.mem_cons_self, inside⟩
    · exact ⟨held, List.mem_cons_of_mem _ mem, inside⟩

theorem lists_hold (id : UInt32) (contained : List UInt32) :
    Lists (hold id contained found) container session ↔
      Lists found container session ∨ (id = container ∧ session ∈ contained) := by
  fun_induction hold id contained found with
  | case1 => rw [lists_cons, or_comm]
  | case2 other held rest before => rw [lists_cons, or_comm]
  | case3 held rest =>
    simp only [lists_cons, List.mem_append]
    tauto
  | case4 other held rest _ _ ih =>
    rw [lists_cons, lists_cons, ih, or_assoc]

theorem lists_foldl (cs : List Container) :
    Lists (cs.foldl (fun found c => hold c.sessionId c.contained found) found) container session ↔
      Lists found container session ∨
        ∃ c ∈ cs, c.sessionId = container ∧ session ∈ c.contained := by
  induction cs generalizing found with
  | nil => simp
  | cons c cs ih => rw [List.foldl_cons, ih, lists_hold, List.exists_mem_cons_iff, or_assoc]

/-- The sessions of pointers under the sessions of the first hulls around them. -/
theorem lists_containers {b : Bundle} :
    Lists (containers b) container session ↔
      ∃ p hull, .pointer p ∈ b.messages ∧ b.FirstAround p hull ∧ hull.sessionId = container ∧
        p.identity.sessionId = session := by
  have nothing : ¬ Lists [] container session := fun ⟨_, mem, _⟩ => List.not_mem_nil mem
  rw [containers, lists_foldl, or_iff_right nothing]
  simp only [List.mem_filterMap, Bundle.container?_eq_some_iff, Bundle.mem_pointers]
  constructor
  · rintro ⟨_, ⟨p, mem, hull, first, rfl⟩, same, inside⟩
    exact ⟨p, hull, mem, first, same, (List.mem_singleton.mp inside).symm⟩
  · rintro ⟨p, hull, mem, first, rfl, rfl⟩
    exact ⟨_, ⟨p, mem, hull, first, rfl⟩, rfl, List.mem_singleton_self _⟩

/-! ## The output -/

theorem container_mem_block {c : Container} :
    .container c ∈ block found ↔ c.slot = 0 ∧ (c.sessionId, c.contained) ∈ found := by
  rw [block]
  split
  · next none => simp [List.isEmpty_iff.mp none]
  · simp only [List.mem_append, List.mem_map, List.mem_singleton, reduceCtorEq, or_false,
      Message.container.injEq, Prod.exists]
    constructor
    · rintro ⟨id, held, mem, rfl⟩
      exact ⟨rfl, mem⟩
    · rintro ⟨slot, mem⟩
      exact ⟨_, _, mem, by rw [← slot]⟩

theorem mem_insertBlock {b : Bundle} {added : List Message} {m : Message} :
    m ∈ (insertBlock b added).messages ↔ m ∈ b.messages ∨ m ∈ added := by
  rw [insertBlock]
  split
  · next ids closes =>
    rw [Bundle.alive?] at closes
    -- the block stands before the closing message, which stays
    cases last : b.messages.getLast? with
    | none => simp [last] at closes
    | some m' =>
      obtain ⟨before, whole⟩ := List.getLast?_eq_some_iff.mp last
      simp only [whole, List.dropLast_concat, List.mem_append, Option.toList]
      tauto
  · exact List.mem_append

/-- What the processor associates: what the input did, and pointers with the first hulls around
them. -/
theorem associates_iff (input output : Bundle) :
    (processor input output).output.Associates container session ↔
      input.Associates container session ∨
        ∃ p hull, .pointer p ∈ input.messages ∧ input.FirstAround p hull ∧
          hull.sessionId = container ∧ p.identity.sessionId = session := by
  rw [← lists_containers]
  simp only [Bundle.Associates, processor, Outcome.ok, mem_insertBlock, container_mem_block]
  constructor
  · rintro ⟨c, mem | ⟨-, mem⟩, rfl, inside⟩
    · exact .inl ⟨c, mem, rfl, inside⟩
    · exact .inr ⟨_, mem, inside⟩
  · rintro (⟨c, mem, same, inside⟩ | ⟨held, mem, inside⟩)
    · exact ⟨c, .inl mem, same, inside⟩
    · exact ⟨⟨container, 0, held⟩, .inr ⟨rfl, mem⟩, rfl, inside⟩

/-- The processor succeeds, and a pointer that lies in a hull is listed by the first hull around it.
A hull lists the pointer's session only if it did so before, or if its session is that of the first
hull around a pointer with this session. -/
theorem listed_by_first_hull (input output : Bundle) {hull : Outline} {p : Pointer}
    (isHull : .convexHull hull ∈ input.messages) (isPointer : .pointer p ∈ input.messages)
    (inside : hull.Contains p) :
    let outcome := processor input output
    outcome.result = .ok () ∧
      (∃ first, input.FirstAround p first ∧
        outcome.output.Associates first.sessionId p.identity.sessionId) ∧
      (outcome.output.Associates hull.sessionId p.identity.sessionId ↔
        input.Associates hull.sessionId p.identity.sessionId ∨
          ∃ p' first, .pointer p' ∈ input.messages ∧ input.FirstAround p' first ∧
            first.sessionId = hull.sessionId ∧
            p'.identity.sessionId = p.identity.sessionId) := by
  obtain ⟨first, around⟩ := Bundle.exists_firstAround (Bundle.mem_hulls.mpr isHull) inside
  refine ⟨rfl, ⟨first, around, ?_⟩, associates_iff input output⟩
  exact (associates_iff input output).mpr (.inr ⟨p, first, isPointer, around, rfl, rfl⟩)

/-- Two hulls of one shape and a pointer in both. -/
def overlapping : Bundle where
  messages :=
    [.convexHull (Sample.hull 40), .convexHull (Sample.hull 50),
      .pointer (Sample.pointer 41 ⟨1, 2.5⟩)]

theorem listed_by_first_hull_overlapping :
    let outcome := processor overlapping {}
    (Sample.hull 50).Contains (Sample.pointer 41 ⟨1, 2.5⟩) ∧
      ∃ first, overlapping.FirstAround (Sample.pointer 41 ⟨1, 2.5⟩) first ∧
        outcome.output.Associates first.sessionId 41 := by
  have inside : (Sample.hull 50).Contains (Sample.pointer 41 ⟨1, 2.5⟩) :=
    ⟨by decide, Outline.holds_iff.mp (by decide +kernel)⟩
  have listed := listed_by_first_hull overlapping {} (by simp [overlapping])
    (by simp [overlapping]) inside
  exact ⟨inside, listed.2.1⟩

/-- The second hull holds the pointer, and no container association lists it there. -/
theorem second_hull_left_out :
    .convexHull (Sample.hull 50) ∈ overlapping.messages ∧
      .pointer (Sample.pointer 41 ⟨1, 2.5⟩) ∈ overlapping.messages ∧
      (Sample.hull 50).Contains (Sample.pointer 41 ⟨1, 2.5⟩) ∧
      ¬ (processor overlapping {}).output.Associates 50 41 := by
  refine ⟨by simp [overlapping], by simp [overlapping],
    ⟨by decide, Outline.holds_iff.mp (by decide +kernel)⟩, ?_⟩
  have found : containers overlapping = [(40, [41])] := by decide +kernel
  rintro ⟨c, mem, same, -⟩
  simp only [processor, Outcome.ok, mem_insertBlock, container_mem_block, found] at mem
  rcases mem with before | ⟨-, added⟩
  · simp [overlapping] at before
  · simp [same] at added

end Containment

end Tangible
