import Tangible.Message.Skeleton
import Tangible.Proofs.Graph.Layout
import Tangible.Proofs.Osc.Reads

/-!
# Skeletons read back

`Skeleton.Reachable` is every skeleton that the operations make. Such a skeleton keeps its origin
at the anchor of its graph (`Reachable.valid`), so its arguments list every joint and the graph
that is read from them is isomorphic to the one written (`Skeleton.ofArgs?_args`). The places in
the arguments have 32 bits, which bounds the number of joints.
-/

namespace Tangible

open Osc (Arg)

/-- Joints whose arguments read back. -/
class LawfulJoint (P : Type) [Joint P] : Prop where
  args_ne_nil (p : P) : Joint.args p ≠ []
  first?_args (p : P) (rest : List Arg) : Joint.first? (Joint.args p ++ rest) = some (p, rest)
  entries?_args (entries : List (Entry P Unit)) :
    Joint.entries? (entries.flatMap fun entry => jumpArgs entry.parent ++ Joint.args entry.value) =
      some entries

namespace Joint

theorem entries2?_args (entries : List (Entry Point2 Unit)) :
    entries2? (entries.flatMap fun entry => jumpArgs entry.parent ++ Run.ofPoint2 entry.value) =
      some entries := by
  induction entries with
  | nil => rfl
  | cons entry entries ih =>
    obtain ⟨parent, point, _⟩ := entry
    cases parent with
    | none => exact congrArg (Option.map (Entry.mk none point () :: ·)) ih
    | some place =>
      rw [← UInt32.toUInt32_toInt32 place]
      exact congrArg (Option.map (Entry.mk (some place.toInt32.toUInt32) point () :: ·)) ih

theorem entries3?_args (entries : List (Entry Point3 Unit)) :
    entries3? (entries.flatMap fun entry => jumpArgs entry.parent ++ Run.ofPoint3 entry.value) =
      some entries := by
  induction entries with
  | nil => rfl
  | cons entry entries ih =>
    obtain ⟨parent, point, _⟩ := entry
    cases parent with
    | none => exact congrArg (Option.map (Entry.mk none point () :: ·)) ih
    | some place =>
      rw [← UInt32.toUInt32_toInt32 place]
      exact congrArg (Option.map (Entry.mk (some place.toInt32.toUInt32) point () :: ·)) ih

instance : LawfulJoint Point2 where
  args_ne_nil _ := List.cons_ne_nil _ _
  first?_args _ _ := rfl
  entries?_args := entries2?_args

instance : LawfulJoint Point3 where
  args_ne_nil _ := List.cons_ne_nil _ _
  first?_args _ _ := rfl
  entries?_args := entries3?_args

end Joint

theorem ok_of_toOption {ε α : Type} {result : Except ε α} {a : α}
    (taken : result.toOption = some a) : result = .ok a := by
  cases result with
  | error e => simp [Except.toOption] at taken
  | ok b => rw [Option.some.inj taken]

namespace Skeleton

variable {P : Type} [Joint P] {s : Skeleton P}

/-- The skeletons that the operations make. -/
inductive Reachable : Skeleton P → Prop where
  | blank (sessionId : UInt32) : Reachable { sessionId }
  | withSession {s : Skeleton P} (sessionId : UInt32) :
      Reachable s → Reachable { s with sessionId }
  | withGraph {s s' : Skeleton P} {graph : Graph P Unit} :
      Reachable s → graph.Reachable → s.withGraph graph = .ok s' → Reachable s'
  | clearGraph {s : Skeleton P} : Reachable s → Reachable s.clearGraph
  | mapJoints {s : Skeleton P} (f : P → P) : Reachable s → Reachable (s.mapJoints f)
  | ofArgs {args : List Arg} {s : Skeleton P} : ofArgs? args = some s → Reachable s

structure Valid (s : Skeleton P) : Prop where
  graph : s.graph.WellFormed
  origin : s.origin = s.graph.anchor? .trunkTree
  shaped : s.origin = none → s.graph.isEmpty

theorem anchor?_of_isEmpty {N E : Type} {g : Graph N E} (none : g.isEmpty) :
    g.anchor? .trunkTree = .none := by
  rw [Graph.isEmpty, beq_iff_eq] at none
  simp [Graph.anchor?, Graph.isTreeSized, none]

omit [Joint P] in
theorem valid_empty (sessionId : UInt32) : Valid { sessionId : Skeleton P } where
  graph := .empty
  origin := (anchor?_of_isEmpty rfl).symm
  shaped _ := rfl

omit [Joint P] in
theorem withGraph_valid {s s' : Skeleton P} {graph : Graph P Unit} (wf : graph.WellFormed)
    (taken : s.withGraph graph = .ok s') : s'.Valid := by
  rw [withGraph] at taken
  split at taken
  · next none =>
    obtain rfl := Except.ok.inj taken
    exact ⟨wf, (anchor?_of_isEmpty none).symm, fun _ => none⟩
  · split at taken
    · next anchor =>
      obtain rfl := Except.ok.inj taken
      exact ⟨wf, anchor.symm, by simp⟩
    · simp at taken

omit [Joint P] in
theorem Valid.mapJoints (valid : s.Valid) (f : P → P) : (s.mapJoints f).Valid := by
  have wf := valid.graph.mapNodes f
  have both := Graph.matches_mapNodes (g := s.graph) f
  refine ⟨wf, ?_, valid.shaped⟩
  exact valid.origin.trans (both.anchor?_eq valid.graph wf _).symm

theorem ofArgs?_valid {args : List Arg} (read : ofArgs? args = some s) : s.Valid := by
  rw [ofArgs?.eq_def] at read
  split at read
  · obtain rfl := Option.some.inj read
    exact valid_empty _
  · simp only [Option.bind_eq_bind, Option.bind_eq_some_iff] at read
    obtain ⟨_, _, _, _, graph, grown, taken⟩ := read
    exact withGraph_valid (Graph.ofEntries?_reachable grown).wellFormed (ok_of_toOption taken)
  · simp at read

theorem Reachable.valid (reachable : s.Reachable) : s.Valid := by
  induction reachable with
  | blank sessionId => exact valid_empty sessionId
  | withSession sessionId _ valid => exact ⟨valid.graph, valid.origin, valid.shaped⟩
  | withGraph _ graph taken _ => exact withGraph_valid graph.wellFormed taken
  | clearGraph _ _ => exact ⟨.empty, (anchor?_of_isEmpty rfl).symm, fun _ => rfl⟩
  | mapJoints f _ valid => exact valid.mapJoints f
  | ofArgs read => exact ofArgs?_valid read

/-- The same session and the same tree of joints, whatever the handles. -/
structure Same (s s' : Skeleton P) : Prop where
  session : s.sessionId = s'.sessionId
  graph : s.graph.Isomorphic s'.graph

theorem ofArgs?_cons (session : UInt32) {rest : List Arg} (some : rest ≠ []) :
    ofArgs? (P := P) (.ofId session :: rest) = (Joint.first? rest).bind fun (origin, rest) =>
      (Joint.entries? rest).bind fun entries =>
        (Graph.ofEntries? origin entries).bind fun graph =>
          (withGraph { sessionId := session } graph).toOption := by
  cases rest with
  | nil => exact absurd rfl some
  | cons arg rest => rfl

/-- Every joint takes an argument at least. -/
theorem nodeCount_le_args [LawfulJoint P] (valid : s.Valid) :
    s.graph.nodeCount ≤ s.args.length := by
  cases anchored : s.origin with
  | none =>
    have none := valid.shaped anchored
    rw [Graph.isEmpty, beq_iff_eq] at none
    omega
  | some origin =>
    obtain ⟨_, _, trunk⟩ := Graph.anchor?_eq_some_iff.mp (valid.origin.symm.trans anchored)
    simp only [Graph.isAnchor, Graph.isTrunkOrigin, Bool.and_eq_true] at trunk
    have all := trunk.2
    rw [Graph.reachesAll, beq_iff_eq, ← Graph.entriesFrom_length valid.graph] at all
    have rows := length_le_flatMap (l := s.entries)
      (r := fun entry => jumpArgs entry.parent ++ Joint.args entry.value)
      fun entry => by simp [LawfulJoint.args_ne_nil]
    simp only [args, entries, anchored, List.length_cons] at rows ⊢
    omega

/-- The same session and a copy of the graph with the origin at the same node. -/
structure Copies (s s' : Skeleton P) (f : NodeId → NodeId) : Prop where
  session : s.sessionId = s'.sessionId
  graph : s.graph.Copies s'.graph f
  wellFormed : s'.graph.WellFormed
  origin : s'.origin = s.origin.map f

omit [Joint P] in
theorem Copies.same {s' : Skeleton P} {f : NodeId → NodeId} (copies : s.Copies s' f) : s.Same s' :=
  ⟨copies.session, f, copies.graph.toRenames⟩

omit [Joint P] in
/-- A copy is walked as the skeleton is. -/
theorem Copies.entries {s' : Skeleton P} {f : NodeId → NodeId} (copies : s.Copies s' f)
    (valid : s.Valid) : s'.entries = s.entries := by
  rw [Skeleton.entries, Skeleton.entries, copies.origin]
  cases anchored : s.origin with
  | none => rfl
  | some origin =>
    have source := (Graph.anchor?_eq_some_iff.mp (valid.origin.symm.trans anchored)).2.1
    exact copies.graph.entriesFrom valid.graph copies.wellFormed (Graph.source?_mem source).1

/-- A copy is written with the same arguments. -/
theorem Copies.args {s' : Skeleton P} {f : NodeId → NodeId} (copies : s.Copies s' f)
    (valid : s.Valid) : s'.args = s.args := by
  rw [Skeleton.args, Skeleton.args, copies.session, copies.entries valid]

/-- A skeleton reads back from its arguments as a copy. -/
theorem ofArgs?_args_copies [LawfulJoint P] (valid : s.Valid) (small : s.graph.nodeCount ≤ 2 ^ 32) :
    ∃ s' f, ofArgs? s.args = some s' ∧ s.Copies s' f := by
  cases anchored : s.origin with
  | none =>
    have short : s.args = [.ofId s.sessionId] := by simp [args, entries, anchored]
    have none := valid.shaped anchored
    refine ⟨{ sessionId := s.sessionId }, id, ?_, rfl, ?_, .empty, by rw [anchored]; rfl⟩
    · rw [short]
      simp [ofArgs?, Arg.ofId]
    · exact Graph.copies_of_isEmpty valid.graph .empty none rfl
  | some origin =>
    have anchor := valid.origin.symm.trans anchored
    obtain ⟨size, source, trunk⟩ := Graph.anchor?_eq_some_iff.mp anchor
    simp only [Graph.isAnchor, Graph.isTrunkOrigin, Bool.and_eq_true] at trunk
    obtain ⟨joint, here⟩ :=
      (Graph.mem_nodeIds_iff_value? valid.graph).mp (Graph.source?_mem source).1
    obtain ⟨entries, edges, written, all⟩ :=
      Graph.entriesFrom_eq valid.graph here size trunk.2 (.inl small)
    obtain ⟨k, f, grown, wf, copies⟩ := Graph.ofEntries?_of_describesAll valid.graph here all
    have both := copies.toRenames.matches valid.graph wf
    -- the reader looks for the anchor again and finds the same node under its new handle
    have anchor' := both.anchor? valid.graph wf anchor
    have row : s.args = .ofId s.sessionId :: (Joint.args joint ++
        entries.flatMap fun entry => jumpArgs entry.parent ++ Joint.args entry.value) := by
      simp only [args, Skeleton.entries, anchored, written, List.flatMap_cons, List.flatMap_map]
      rfl
    have notEmpty : k.isEmpty = false := by
      rw [Graph.isEmpty, both.nodeCount, all.nodeCount]
      rfl
    refine ⟨{ sessionId := s.sessionId, graph := k, origin := some (f origin) }, f, ?_, rfl, copies,
      wf, by rw [anchored]; rfl⟩
    rw [row, ofArgs?_cons _ (by simp [LawfulJoint.args_ne_nil]), LawfulJoint.first?_args]
    simp [LawfulJoint.entries?_args, grown, withGraph, notEmpty, anchor', Except.toOption]

/-- A skeleton reads back from its arguments. -/
theorem ofArgs?_args [LawfulJoint P] (valid : s.Valid) (small : s.graph.nodeCount ≤ 2 ^ 32) :
    ∃ s', ofArgs? s.args = some s' ∧ s.Same s' := by
  obtain ⟨s', _, read, copies⟩ := ofArgs?_args_copies valid small
  exact ⟨s', read, copies.same⟩

end Skeleton

end Tangible
