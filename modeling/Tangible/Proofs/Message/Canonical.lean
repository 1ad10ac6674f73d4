import Tangible.Proofs.Graph.Preorder
import Tangible.Proofs.Message.Grammar

/-!
# Trees written again

A tree that was read is written in the order of a walk. Its arguments come out as they were read if
and only if every separator names a proper ancestor of the entry before it (`Canonical`). All other
arguments that are accepted are rewritten: those with a separator where the entry would follow its
parent anyway, and those that come back to a branch that was left (`trees_written_again`).
-/

namespace Tangible

open Osc (Arg)

namespace Links

variable {args : List Arg} {session : UInt32} {physical : Bool}
  {entries : List (Entry UInt32 Ports)} {l : Links .trunkTree}

theorem rows_inj {written : List (Entry UInt32 Ports)} :
    rows written = rows entries ↔ written = entries := by
  refine ⟨fun same => ?_, congrArg rows⟩
  have read := congrArg treeEntries? same
  rw [rows, rows, treeEntries?_args, treeEntries?_args] at read
  exact Option.some.inj read

/-- What becomes of arguments that were read as a link tree. -/
structure WrittenAgain (args : List Arg) (l : Links .trunkTree) : Prop where
  tree : ∃ session physical entries, args = treeArgs session physical entries
  again : ∀ session physical entries, args = treeArgs session physical entries →
    (l.args = args ↔ Canonical entries)

theorem args_ofGrown {g : LinkGraph} {root : NodeId} (grown : g.Grown root session entries)
    (planted : Planted entries) :
    (ofGrown session physical entries g root).args = treeArgs session physical entries ↔
      Canonical entries := by
  unfold ofGrown
  split
  · next none =>
    subst none
    exact iff_of_true rfl (List.forall_mem_nil _)
  · obtain ⟨written, walked, same⟩ := grown.entriesFrom_eq_iff planted.known
    have body : (⟨session, physical, g.setNode root session, some root⟩ : Links .trunkTree).body =
        rows written := by
      rw [Links.body, Links.entries]
      simp only [grown.entriesFrom_setNode, walked, List.tail_cons, List.flatMap_map]
      rfl
    rw [← same, ← rows_inj, Links.args, body, treeArgs, List.cons.injEq, List.cons.injEq]
    simp

theorem writtenAgain (read : ofArgs? args = some l) : WrittenAgain args l := by
  refine ⟨exists_treeArgs read, ?_⟩
  rintro session physical entries rfl
  obtain ⟨planted, g, root, grown, -, rfl⟩ := ofArgs?_treeArgs.mp read
  exact args_ofGrown grown planted

end Links

namespace Skeleton

variable {P : Type} [Joint P] {args : List Arg} {session : UInt32} {origin : P}
  {entries : List (Entry P Unit)} {s : Skeleton P}

theorem entries_inj [LawfulJoint P] {written : List (Entry P Unit)} :
    treeArgs session origin written = treeArgs session origin entries ↔ written = entries := by
  refine ⟨fun same => ?_, fun same => by rw [same]⟩
  have rows := List.append_cancel_left (List.cons.inj same).2
  have read := congrArg (Joint.entries? (P := P)) rows
  rw [LawfulJoint.entries?_args, LawfulJoint.entries?_args] at read
  exact Option.some.inj read

/-- What becomes of arguments that were read as a skeleton. -/
structure WrittenAgain (args : List Arg) (s : Skeleton P) : Prop where
  tree : (∃ session, args = [.ofId session]) ∨
    ∃ session, ∃ (origin : P) (entries : _), args = treeArgs session origin entries
  bare : ∀ session, args = [.ofId session] → s.args = args ∧ s.joints = []
  again : ∀ session (origin : P) entries, args = treeArgs session origin entries →
    (s.args = args ↔ Canonical entries)
  joints : ∀ session origin entries, args = treeArgs session origin entries → s.args = args →
    s.joints = origin :: entries.map Entry.value

theorem args_grown [LawfulJoint P] (session : UInt32) {g : Graph P Unit} {root : NodeId}
    (grown : g.Grown root origin entries) (planted : Planted entries) :
    (Skeleton.args ⟨session, g, some root⟩ = treeArgs session origin entries ↔
        Canonical entries) ∧
      (Canonical entries →
        Skeleton.joints ⟨session, g, some root⟩ = origin :: entries.map Entry.value) := by
  obtain ⟨written, walked, same⟩ := grown.entriesFrom_eq_iff planted.known
  have args : Skeleton.args ⟨session, g, some root⟩ = treeArgs session origin written := by
    simp only [Skeleton.args, Skeleton.entries, walked, treeArgs, List.flatMap_cons,
      List.flatMap_map]
    rfl
  have joints : Skeleton.joints ⟨session, g, some root⟩ = origin :: written.map Entry.value := by
    simp only [Skeleton.joints, Skeleton.entries, walked, List.map_cons, List.map_map]
    rfl
  rw [args, joints, entries_inj, same]
  exact ⟨Iff.rfl, fun canonical => by rw [same.mpr canonical]⟩

theorem writtenAgain [ExactJoint P] (read : ofArgs? args = some s) : WrittenAgain args s := by
  refine ⟨exists_treeArgs read, ?_, ?_, ?_⟩
  · rintro session rfl
    rw [ofArgs?_bare] at read
    obtain rfl := Option.some.inj read
    exact ⟨rfl, rfl⟩
  · rintro session origin entries rfl
    obtain ⟨planted, g, root, grown, -, rfl⟩ := ofArgs?_treeArgs.mp read
    exact (args_grown session grown planted).1
  · rintro session origin entries rfl again
    obtain ⟨planted, g, root, grown, -, rfl⟩ := ofArgs?_treeArgs.mp read
    obtain ⟨same, joints⟩ := args_grown session grown planted
    exact joints (same.mp again)

end Skeleton

/-- Trees are written again as they were read exactly if their separators are canonical. -/
theorem trees_written_again (args : List Arg) :
    (∀ l : Links .trunkTree, Links.ofArgs? args = some l → Links.WrittenAgain args l) ∧
      (∀ s : Skeleton Point2, Skeleton.ofArgs? args = some s → Skeleton.WrittenAgain args s) ∧
      ∀ s : Skeleton Point3, Skeleton.ofArgs? args = some s → Skeleton.WrittenAgain args s :=
  ⟨fun _ => Links.writtenAgain, fun _ => Skeleton.writtenAgain, fun _ => Skeleton.writtenAgain⟩

theorem canonical_branched {N E : Type} (first second third : N) (edge : E) :
    Canonical (branched first second third edge) := by
  intro row mem place named
  obtain ⟨rfl, behind⟩ : place = 1 ∧ row.2 = 3 := by
    simp only [branched, List.zipIdx_cons, List.zipIdx_nil, List.mem_cons, List.not_mem_nil,
      or_false] at mem
    rcases mem with rfl | rfl | rfl
    · cases named
    · cases named
    · cases named
      exact ⟨rfl, rfl⟩
  rw [behind]
  exact .single ⟨⟨none, second, edge⟩, by simp [branched], rfl⟩

/-- The separator names the entry before, where nothing had to be said. -/
def wordy : List (Entry UInt32 Ports) := [⟨none, 8, {}⟩, ⟨some 1, 9, {}⟩]

theorem trees_written_again_branched :
    (∃ l : Links .trunkTree, Links.ofArgs? (Links.treeArgs 5 true (branched 8 9 10 {})) = some l ∧
        l.args = Links.treeArgs 5 true (branched 8 9 10 {})) ∧
      (∃ l : Links .trunkTree, Links.ofArgs? (Links.treeArgs 5 true wordy) = some l ∧
        l.args ≠ Links.treeArgs 5 true wordy) ∧
      ∃ s : Skeleton Point2,
        Skeleton.ofArgs?
            (Skeleton.treeArgs (P := Point2) 5 ⟨0, 0⟩ (branched ⟨0, 1⟩ ⟨0, 2⟩ ⟨1, 2⟩ ())) = some s ∧
          s.joints = [⟨0, 0⟩, ⟨0, 1⟩, ⟨0, 2⟩, ⟨1, 2⟩] := by
  obtain ⟨l, read⟩ := Option.isSome_iff_exists.mp
    (Links.isSome_treeArgs.mpr (planted_branched 8 9 10 {}))
  have planted : Planted wordy := by decide
  obtain ⟨l', read'⟩ := Option.isSome_iff_exists.mp (Links.isSome_treeArgs.mpr planted)
  obtain ⟨s, read''⟩ := Option.isSome_iff_exists.mp
    (Skeleton.isSome_treeArgs.mpr (planted_branched (N := Point2) ⟨0, 1⟩ ⟨0, 2⟩ ⟨1, 2⟩ ()))
  have again := ((trees_written_again _).1 l read).again _ _ _ rfl
  have again' := ((trees_written_again _).1 l' read').again _ _ _ rfl
  have joints := ((trees_written_again _).2.1 s read'').joints _ _ _ rfl
  have again'' := ((trees_written_again _).2.1 s read'').again _ _ _ rfl
  refine ⟨⟨l, read, again.mpr (canonical_branched _ _ _ _)⟩, ⟨l', read', fun same => ?_⟩,
    s, read'', joints (again''.mpr (canonical_branched _ _ _ _))⟩
  have terse := ((canonical_iff planted.known).mp (again'.mp same)).2
  exact terse (⟨some 1, 9, {}⟩, 2) (by simp [wordy]) 1 rfl rfl

end Tangible
