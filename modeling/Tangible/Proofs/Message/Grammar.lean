import Tangible.Proofs.Graph.Growth
import Tangible.Proofs.Message.Link

/-!
# The grammar of trees

A link tree is written as a header and the entries behind an origin that is implied by the message.
A skeleton is written as a session alone, or with the joint of its origin and the entries behind it.
An entry may be preceded by a separator with the place of its parent.

The readers accept rows of this form and no others (`Links.rows_of_treeEntries?`, `ExactJoint`). Of
those they turn down the ones with an entry that names a place not before its own, and the ones
with an entry other than the first below the origin. What they accept tells of the entries one by
one (`trees_read_exactly`).
-/

namespace Tangible

open Osc (Arg)

/-! ## Link trees -/

namespace Links

variable {args : List Arg} {session : UInt32} {physical : Bool}
  {entries : List (Entry UInt32 Ports)} {l : Links .trunkTree}

def rows (entries : List (Entry UInt32 Ports)) : List Arg :=
  entries.flatMap fun entry => jumpArgs entry.parent ++ linkArgs entry.value (some entry.edge)

/-- The header of a link tree and the entries behind its origin. -/
def treeArgs (session : UInt32) (physical : Bool) (entries : List (Entry UInt32 Ports)) :
    List Arg :=
  .ofId session :: .bool physical :: rows entries

theorem linkArgs_ofPacked (session ports : Int32) :
    linkArgs session.toUInt32 (some (.ofPacked ports.toUInt32)) = [.int session, .int ports] := by
  simp only [linkArgs, Run.ofIds, Option.map_some, Option.getD_some, Ports.packed, Ports.ofPacked,
    joinHalves_halves, List.map_cons, List.map_nil, Arg.ofId_toUInt32]

theorem rows_of_treeEntries? (read : treeEntries? args = some entries) : rows entries = args := by
  fun_induction treeEntries? args generalizing entries with
  | case1 =>
    obtain rfl := Option.some.inj read
    rfl
  | case2 place session ports rest ih =>
    obtain ⟨entries, behind, rfl⟩ := Option.map_eq_some_iff.mp read
    rw [rows, List.flatMap_cons, ← rows, ih behind, linkArgs_ofPacked, jumpArgs, Arg.ofId_toUInt32]
    rfl
  | case3 session ports rest ih =>
    obtain ⟨entries, behind, rfl⟩ := Option.map_eq_some_iff.mp read
    rw [rows, List.flatMap_cons, ← rows, ih behind, linkArgs_ofPacked]
    rfl
  | case4 => simp at read

/-- Whatever is read has the form of a tree. -/
theorem exists_treeArgs (read : ofArgs? args = some l) :
    ∃ session physical entries, args = treeArgs session physical entries := by
  rw [ofArgs?.eq_def] at read
  split at read
  · next session physical rest =>
    obtain ⟨entries, found, -⟩ := Option.bind_eq_some_iff.mp read
    refine ⟨session.toUInt32, physical, entries, ?_⟩
    rw [treeArgs, rows_of_treeEntries? found, Arg.ofId_toUInt32]
  · simp at read

theorem ofArgs?_treeArgs_eq :
    (ofArgs? (treeArgs session physical entries) : Option (Links .trunkTree)) =
      (Graph.ofEntries? session entries).bind fun graph =>
        (withGraph { sessionId := session, physical } graph).toOption := by
  rw [treeArgs, ofArgs?_cons, entries?, rows, treeEntries?_args, Option.bind_some]

/-- The links of a tree that was grown. Of an origin alone nothing is stored. -/
def ofGrown (session : UInt32) (physical : Bool) (entries : List (Entry UInt32 Ports))
    (graph : LinkGraph) (root : NodeId) : Links .trunkTree :=
  if entries = [] then { sessionId := session, physical }
  else ⟨session, physical, graph.setNode root session, some root⟩

theorem withGraph_grown {g : LinkGraph} {root : NodeId} (grown : g.Grown root session entries)
    (known : Known entries 1) :
    (withGraph { sessionId := session, physical } g).toOption = some l ↔
      Planted entries ∧ l = ofGrown session physical entries g root := by
  have edges := grown.rooted.edges_length
  rw [← Graph.edgeCount_eq grown.wellFormed, grown.nodeCount, Nat.add_sub_cancel] at edges
  have single : (g.edgeCount = 0 ∧ g.nodeCount ≤ 1) ↔ entries = [] := by
    simp [edges, grown.nodeCount]
  unfold withGraph ofGrown
  by_cases none : entries = []
  · have planted : Planted entries := none ▸ by decide
    rw [if_pos (single.mpr none), if_pos none, and_iff_right planted]
    exact Option.some_inj.trans eq_comm
  · rw [if_neg (single.not.mpr none), if_neg none, grown.anchor?_eq known]
    by_cases planted : Planted entries
    · rw [if_pos planted, and_iff_right planted]
      exact Option.some_inj.trans eq_comm
    · simp [Except.toOption, planted]

theorem ofArgs?_treeArgs : ofArgs? (treeArgs session physical entries) = some l ↔
    Planted entries ∧ ∃ g root, g.Grown root session entries ∧
      Graph.ofEntries? session entries = some g ∧ l = ofGrown session physical entries g root := by
  rw [ofArgs?_treeArgs_eq]
  exact Graph.bind_ofEntries?_eq_some_iff (fun _ _ grown known _ => withGraph_grown grown known) l

theorem isSome_treeArgs :
    (ofArgs? (treeArgs session physical entries) : Option (Links .trunkTree)).isSome ↔
      Planted entries := by
  rw [ofArgs?_treeArgs_eq]
  exact Graph.bind_ofEntries?_isSome_iff fun _ _ grown known _ => withGraph_grown grown known

/-- The row of arguments is read as a link tree if it is made of a header and planted entries. The
graph tells of the session and the entries, and there is none if there are no entries. -/
structure Grammar (args : List Arg) : Prop where
  accepts : (ofArgs? args : Option (Links .trunkTree)).isSome ↔
    ∃ session physical entries, args = treeArgs session physical entries ∧ Planted entries
  reads : ∀ session physical entries (l : Links .trunkTree),
    args = treeArgs session physical entries → ofArgs? args = some l →
      l.sessionId = session ∧ l.physical = physical ∧
        if entries = [] then l.graph = .empty else l.graph.Tells session entries

theorem grammar (args : List Arg) : Grammar args := by
  refine ⟨⟨fun accepted => ?_, ?_⟩, ?_⟩
  · obtain ⟨l, read⟩ := Option.isSome_iff_exists.mp accepted
    obtain ⟨session, physical, entries, rfl⟩ := exists_treeArgs read
    exact ⟨session, physical, entries, rfl, isSome_treeArgs.mp accepted⟩
  · rintro ⟨session, physical, entries, rfl, planted⟩
    exact isSome_treeArgs.mpr planted
  · rintro session physical entries l rfl read
    obtain ⟨-, g, root, grown, -, rfl⟩ := ofArgs?_treeArgs.mp read
    unfold ofGrown
    split
    · exact ⟨rfl, rfl, rfl⟩
    · exact ⟨rfl, rfl, grown.setNode_root⟩

end Links

/-! ## Skeletons -/

/-- Joints whose readers accept what is written of them and nothing else. -/
class ExactJoint (P : Type) [Joint P] : Prop extends LawfulJoint P where
  args_of_first? {args rest : List Arg} {p : P} :
    Joint.first? args = some (p, rest) → Joint.args p ++ rest = args
  args_of_entries? {args : List Arg} {entries : List (Entry P Unit)} :
    Joint.entries? args = some entries →
      (entries.flatMap fun entry => jumpArgs entry.parent ++ Joint.args entry.value) = args

namespace Joint

theorem args_of_entries2? {args : List Arg} {entries : List (Entry Point2 Unit)}
    (read : entries2? args = some entries) :
    (entries.flatMap fun entry => jumpArgs entry.parent ++ Run.ofPoint2 entry.value) = args := by
  fun_induction entries2? args generalizing entries with
  | case1 =>
    obtain rfl := Option.some.inj read
    rfl
  | case2 place x y rest ih =>
    obtain ⟨entries, behind, rfl⟩ := Option.map_eq_some_iff.mp read
    rw [List.flatMap_cons, ih behind, jumpArgs, Arg.ofId_toUInt32]
    rfl
  | case3 x y rest ih =>
    obtain ⟨entries, behind, rfl⟩ := Option.map_eq_some_iff.mp read
    rw [List.flatMap_cons, ih behind]
    rfl
  | case4 => simp at read

theorem args_of_entries3? {args : List Arg} {entries : List (Entry Point3 Unit)}
    (read : entries3? args = some entries) :
    (entries.flatMap fun entry => jumpArgs entry.parent ++ Run.ofPoint3 entry.value) = args := by
  fun_induction entries3? args generalizing entries with
  | case1 =>
    obtain rfl := Option.some.inj read
    rfl
  | case2 place x y z rest ih =>
    obtain ⟨entries, behind, rfl⟩ := Option.map_eq_some_iff.mp read
    rw [List.flatMap_cons, ih behind, jumpArgs, Arg.ofId_toUInt32]
    rfl
  | case3 x y z rest ih =>
    obtain ⟨entries, behind, rfl⟩ := Option.map_eq_some_iff.mp read
    rw [List.flatMap_cons, ih behind]
    rfl
  | case4 => simp at read

instance : ExactJoint Point2 where
  args_of_first? {args rest p} read := by
    change first2? args = some (p, rest) at read
    unfold first2? at read
    split at read
    · cases read
      rfl
    · cases read
  args_of_entries? := args_of_entries2?

instance : ExactJoint Point3 where
  args_of_first? {args rest p} read := by
    change first3? args = some (p, rest) at read
    unfold first3? at read
    split at read
    · cases read
      rfl
    · cases read
  args_of_entries? := args_of_entries3?

end Joint

namespace Skeleton

variable {P : Type} [Joint P] {args : List Arg} {session : UInt32} {origin : P}
  {entries : List (Entry P Unit)} {s : Skeleton P}

/-- The session, the joint of the origin and the entries behind it. -/
def treeArgs (session : UInt32) (origin : P) (entries : List (Entry P Unit)) : List Arg :=
  .ofId session :: (Joint.args origin ++
    entries.flatMap fun entry => jumpArgs entry.parent ++ Joint.args entry.value)

theorem ofArgs?_bare (session : UInt32) :
    ofArgs? [.ofId session] = some ({ sessionId := session } : Skeleton P) := by
  simp [ofArgs?, Arg.ofId]

/-- Whatever is read is a session alone or has the form of a tree. -/
theorem exists_treeArgs [ExactJoint P] (read : ofArgs? args = some s) :
    (∃ session, args = [.ofId session]) ∨
      ∃ session, ∃ (origin : P) (entries : _), args = treeArgs session origin entries := by
  rw [ofArgs?.eq_def] at read
  split at read
  · next session => exact .inl ⟨session.toUInt32, by rw [Arg.ofId_toUInt32]⟩
  · next session rest _ =>
    obtain ⟨⟨origin, behind⟩, first, read⟩ := Option.bind_eq_some_iff.mp read
    obtain ⟨entries, found, -⟩ := Option.bind_eq_some_iff.mp read
    refine .inr ⟨session.toUInt32, origin, entries, ?_⟩
    rw [treeArgs, ExactJoint.args_of_entries? found, ExactJoint.args_of_first? first,
      Arg.ofId_toUInt32]
  · simp at read

theorem ofArgs?_treeArgs_eq [LawfulJoint P] : ofArgs? (treeArgs session origin entries) =
    (Graph.ofEntries? origin entries).bind fun graph =>
      (withGraph { sessionId := session } graph).toOption := by
  rw [treeArgs, ofArgs?_cons _ (by simp [LawfulJoint.args_ne_nil]), LawfulJoint.first?_args]
  simp only [Option.bind_some, LawfulJoint.entries?_args]

omit [Joint P] in
theorem withGraph_grown {g : Graph P Unit} {root : NodeId} (grown : g.Grown root origin entries)
    (known : Known entries 1) :
    (withGraph { sessionId := session } g).toOption = some s ↔
      Planted entries ∧ s = ⟨session, g, some root⟩ := by
  have some : g.isEmpty = false := by simp [Graph.isEmpty, grown.nodeCount]
  unfold withGraph
  rw [some, if_neg Bool.false_ne_true, grown.anchor?_eq known]
  by_cases planted : Planted entries
  · rw [if_pos planted, and_iff_right planted]
    exact Option.some_inj.trans eq_comm
  · simp [Except.toOption, planted]

theorem ofArgs?_treeArgs [LawfulJoint P] : ofArgs? (treeArgs session origin entries) = some s ↔
    Planted entries ∧ ∃ g root, g.Grown root origin entries ∧
      Graph.ofEntries? origin entries = some g ∧ s = ⟨session, g, some root⟩ := by
  rw [ofArgs?_treeArgs_eq]
  exact Graph.bind_ofEntries?_eq_some_iff (fun _ _ grown known _ => withGraph_grown grown known) s

theorem isSome_treeArgs [LawfulJoint P] :
    (ofArgs? (treeArgs session origin entries) : Option (Skeleton P)).isSome ↔
      Planted entries := by
  rw [ofArgs?_treeArgs_eq]
  exact Graph.bind_ofEntries?_isSome_iff fun _ _ grown known _ => withGraph_grown grown known

/-- The row of arguments is read as a skeleton if it is a session alone, or if it is made of a
session, the joint of an origin and planted entries. The graph tells of the joints, and it is empty
if there are none. -/
structure Grammar (P : Type) [Joint P] (args : List Arg) : Prop where
  accepts : (ofArgs? args : Option (Skeleton P)).isSome ↔
    (∃ session, args = [.ofId session]) ∨
      ∃ session, ∃ (origin : P) (entries : List (Entry P Unit)),
        args = treeArgs session origin entries ∧ Planted entries
  bare : ∀ session (s : Skeleton P), args = [.ofId session] → ofArgs? args = some s →
    s.sessionId = session ∧ s.graph = .empty
  reads : ∀ session origin entries (s : Skeleton P),
    args = treeArgs session origin entries → ofArgs? args = some s →
      s.sessionId = session ∧ s.graph.Tells origin entries

theorem grammar (P : Type) [Joint P] [ExactJoint P] (args : List Arg) : Grammar P args := by
  refine ⟨⟨fun accepted => ?_, ?_⟩, ?_, ?_⟩
  · obtain ⟨s, read⟩ := Option.isSome_iff_exists.mp accepted
    rcases exists_treeArgs read with bare | ⟨session, origin, entries, rfl⟩
    · exact .inl bare
    · exact .inr ⟨session, origin, entries, rfl, isSome_treeArgs.mp accepted⟩
  · rintro (⟨session, rfl⟩ | ⟨session, origin, entries, rfl, planted⟩)
    · rw [ofArgs?_bare]
      rfl
    · exact isSome_treeArgs.mpr planted
  · rintro session s rfl read
    rw [ofArgs?_bare] at read
    obtain rfl := Option.some.inj read
    exact ⟨rfl, rfl⟩
  · rintro session origin entries s rfl read
    obtain ⟨-, g, root, grown, -, rfl⟩ := ofArgs?_treeArgs.mp read
    exact ⟨rfl, grown.tells⟩

end Skeleton

/-! ## All trees -/

/-- The readers of the three kinds of trees accept exactly the rows of their grammars. -/
theorem trees_read_exactly (args : List Arg) :
    Links.Grammar args ∧ Skeleton.Grammar Point2 args ∧ Skeleton.Grammar Point3 args :=
  ⟨Links.grammar args, Skeleton.grammar Point2 args, Skeleton.grammar Point3 args⟩

/-- A trunk with two branches, the second of them behind a separator. -/
def branched {N E : Type} (first second third : N) (edge : E) : List (Entry N E) :=
  [⟨none, first, edge⟩, ⟨none, second, edge⟩, ⟨some 1, third, edge⟩]

/-- A second branch at the origin. -/
def forked : List (Entry UInt32 Ports) := [⟨none, 8, {}⟩, ⟨some 0, 9, {}⟩]

theorem planted_branched {N E : Type} (first second third : N) (edge : E) :
    Planted (branched first second third edge) := by
  constructor <;> simp [branched, Known, Entry.parentPlace]

theorem trees_read_exactly_branched :
    (∃ l : Links .trunkTree, Links.ofArgs? (Links.treeArgs 5 true (branched 8 9 10 {})) = some l ∧
        l.graph.Tells 5 (branched 8 9 10 {})) ∧
      (∃ s : Skeleton Point2,
        Skeleton.ofArgs?
            (Skeleton.treeArgs (P := Point2) 5 ⟨0, 0⟩ (branched ⟨0, 1⟩ ⟨0, 2⟩ ⟨1, 2⟩ ())) = some s ∧
          s.graph.Tells ⟨0, 0⟩ (branched ⟨0, 1⟩ ⟨0, 2⟩ ⟨1, 2⟩ ())) ∧
      (Links.ofArgs? (Links.treeArgs 5 true forked) : Option (Links .trunkTree)).isNone := by
  obtain ⟨links, -, -⟩ := trees_read_exactly (Links.treeArgs 5 true (branched 8 9 10 {}))
  obtain ⟨-, joints, -⟩ := trees_read_exactly
    (Skeleton.treeArgs (P := Point2) 5 ⟨0, 0⟩ (branched ⟨0, 1⟩ ⟨0, 2⟩ ⟨1, 2⟩ ()))
  obtain ⟨l, read⟩ := Option.isSome_iff_exists.mp
    (links.accepts.mpr ⟨_, _, _, rfl, planted_branched ..⟩)
  obtain ⟨s, read'⟩ := Option.isSome_iff_exists.mp
    (joints.accepts.mpr (.inr ⟨_, _, _, rfl, planted_branched ..⟩))
  exact ⟨⟨l, read, (links.reads _ _ _ l rfl read).2.2⟩,
    ⟨s, read', (joints.reads _ _ _ s rfl read').2⟩, by decide⟩

end Tangible
