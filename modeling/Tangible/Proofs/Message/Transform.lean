import Tangible.Message.Transform
import Tangible.Proofs.Graph.Change
import Tangible.Proofs.Message.Update

/-!
# Skeletons in motion

A transform of a skeleton goes through the slots of its arena, the joints and the arguments come
from the walk. The arena is walked in the same steps whatever its payloads are
(`Graph.walkFrom_mapNodes`), so every entry of the walk keeps its place and its jump
(`Graph.entriesFrom_mapNodes`). `Skeleton.Moved` is what a transform leaves of a skeleton.
-/

namespace Tangible

open Osc (Arg)

/-! ## Walks under new payloads -/

namespace Graph

variable {N E : Type} {g : Graph N E}

theorem node?_mapNodes (f : N → N) (id : NodeId) :
    (g.mapNodes f).node? id =
      (g.node? id).map fun node => { node with value := f node.value } :=
  Arena.get?_map ..

theorem value?_mapNodes (f : N → N) (id : NodeId) :
    (g.mapNodes f).value? id = (g.value? id).map f := by
  simp only [value?, node?_mapNodes, Option.map_map]
  rfl

theorem stepsFrom_mapNodes (f : N → N) (id : NodeId) :
    (g.mapNodes f).stepsFrom id = g.stepsFrom id := by
  have listed : (g.mapNodes f).outgoing id = g.outgoing id := by
    simp only [outgoing, node?_mapNodes, Option.map_map]
    rfl
  simp only [stepsFrom, outEdges, listed]
  rfl

theorem walk_mapNodes (f : N → N) (unvisited : List NodeId) (stack : List Step) :
    (g.mapNodes f).walk unvisited stack = g.walk unvisited stack := by
  induction unvisited, stack using walk.induct g with
  | case1 unvisited => rw [walk, walk]
  | case2 unvisited step stack left ih =>
    rw [walk, walk, if_pos left, if_pos left, stepsFrom_mapNodes, ih]
  | case3 unvisited step stack passed ih =>
    rw [walk, walk, if_neg passed, if_neg passed, ih]

theorem walkFrom_mapNodes (f : N → N) (origin : NodeId) :
    (g.mapNodes f).walkFrom origin = g.walkFrom origin :=
  walk_mapNodes ..

theorem entriesOf_mapNodes (f : N → N) (before : List NodeId) (steps : List Step) :
    (g.mapNodes f).entriesOf before steps =
      (g.entriesOf before steps).map fun entry => { entry with value := f entry.value } := by
  induction steps generalizing before with
  | nil => rfl
  | cons step steps ih =>
    simp only [entriesOf, value?_mapNodes, ih]
    cases g.value? step.node with
    | none => rfl
    | some value => rfl

theorem entriesFrom_mapNodes (f : N → N) (origin : NodeId) :
    (g.mapNodes f).entriesFrom origin =
      (g.entriesFrom origin).map fun entry => { entry with value := f entry.value } := by
  rw [entriesFrom, walkFrom_mapNodes, entriesOf_mapNodes, entriesFrom]

theorem values_entriesOf (before : List NodeId) (steps : List Step) :
    (g.entriesOf before steps).map Entry.value = (steps.map Step.node).filterMap g.value? := by
  induction steps generalizing before with
  | nil => rfl
  | cons step steps ih =>
    rw [entriesOf, List.map_cons, List.filterMap_cons]
    cases g.value? step.node with
    | none => exact ih _
    | some value => exact congrArg (value :: ·) (ih _)

theorem values_eq_filterMap (wf : g.WellFormed) :
    g.nodes.map (·.2) = g.nodeIds.filterMap g.value? := by
  rw [nodeIds_eq wf, List.filterMap_map]
  refine Eq.symm (List.filterMap_eq_map_iff_forall_eq_some.mpr fun n inside => ?_)
  exact (value?_eq_some_iff wf).mpr inside

theorem walkFrom_perm (wf : g.WellFormed) {origin : NodeId} (all : g.reachesAll origin) :
    ((g.walkFrom origin).map Step.node).Perm g.nodeIds := by
  have inside : (g.walkFrom origin).map Step.node ⊆ g.nodeIds :=
    List.forall_mem_map.mpr (walk_subset _ _)
  refine (List.subperm_of_subset (walkFrom_nodup wf origin) inside).perm_of_length_le ?_
  rw [reachesAll, beq_iff_eq] at all
  rw [List.length_map, all, nodeCount_eq wf, nodeIds_eq wf, List.length_map]

end Graph

/-! ## Skeletons -/

/-- The same argument, or two floats. -/
inductive Osc.Arg.Alike : Arg → Arg → Prop where
  | refl (arg : Arg) : Alike arg arg
  | float (x y : Single) : Alike (.float x) (.float y)

/-- Joints that are written as coordinates alone. -/
class CoordinateJoint (P : Type) [Joint P] : Prop where
  args_alike (p q : P) : List.Forall₂ Arg.Alike (Joint.args p) (Joint.args q)

instance : CoordinateJoint Point2 where
  args_alike _ _ := .cons (.float ..) (.cons (.float ..) .nil)

instance : CoordinateJoint Point3 where
  args_alike _ _ := .cons (.float ..) (.cons (.float ..) (.cons (.float ..) .nil))

/-- The transforms that a skeleton of the plane supports. -/
def Transform.OfPlane : Transform → Prop
  | .moveX _ | .moveY _ | .move .. | .scaleX .. | .scaleY .. | .scale .. | .rotate .. => True
  | .moveZ _ | .scaleZ .. | .pitch .. | .roll .. => False

theorem Transform.OfPlane.vertex? {t : Transform} (plane : t.OfPlane) :
    ∃ motion, t.vertex? = some motion := by
  cases t <;> first | exact ⟨_, rfl⟩ | exact plane.elim

namespace Skeleton

variable {P : Type} {s : Skeleton P}

/-- The skeleton of a single joint. -/
def lone (p : P) : Skeleton P where
  graph := (Graph.empty.createNode p).2
  origin := some (Graph.empty.createNode (E := Unit) p).1

/-- The arguments of joints, each with its jump. -/
def rowArgs [Joint P] (sessionId : UInt32) (jumps : List (Option UInt32)) (joints : List P) :
    List Arg :=
  .ofId sessionId :: (jumps.zip joints).flatMap fun row => jumpArgs row.1 ++ Joint.args row.2

/-- `s'` is `s` with every joint moved once and nothing else changed. -/
structure Moved [Joint P] (motion : P → P) (s s' : Skeleton P) : Prop where
  sessionId : s'.sessionId = s.sessionId
  origin : s'.origin = s.origin
  edges : s'.graph.edges = s.graph.edges
  nodes : s'.graph.nodes = s.graph.nodes.map fun n => (n.1, motion n.2)
  joints : s'.joints = s.joints.map motion
  /-- The joints are the payloads of the nodes, none left out and none twice. -/
  all : s.joints.Perm (s.graph.nodes.map (·.2))
  args : ∃ jumps : List (Option UInt32), jumps.length = s.joints.length ∧
    s.args = rowArgs s.sessionId jumps s.joints ∧
    s'.args = rowArgs s.sessionId jumps (s.joints.map motion)
  alike : List.Forall₂ Arg.Alike s.args s'.args

theorem entries_mapJoints (s : Skeleton P) (f : P → P) :
    (s.mapJoints f).entries = s.entries.map fun entry => { entry with value := f entry.value } := by
  have origin : (s.mapJoints f).origin = s.origin := rfl
  rw [entries, entries, origin]
  cases s.origin with
  | none => rfl
  | some origin => exact Graph.entriesFrom_mapNodes f origin

theorem joints_mapJoints (s : Skeleton P) (f : P → P) :
    (s.mapJoints f).joints = s.joints.map f := by
  rw [joints, entries_mapJoints, joints, List.map_map, List.map_map]
  rfl

/-- The jumps of the walk, which do not depend on the joints. -/
def jumps (s : Skeleton P) : List (Option UInt32) :=
  s.entries.map Entry.parent

theorem jumps_mapJoints (s : Skeleton P) (f : P → P) : (s.mapJoints f).jumps = s.jumps := by
  rw [jumps, entries_mapJoints, jumps, List.map_map]
  rfl

theorem args_eq_rowArgs [Joint P] (s : Skeleton P) :
    s.args = rowArgs s.sessionId s.jumps s.joints := by
  rw [args, rowArgs, jumps, joints, List.zip_map', List.flatMap_map]

theorem rowArgs_alike [Joint P] [CoordinateJoint P] (f : P → P) (sessionId : UInt32)
    (jumps : List (Option UInt32)) (joints : List P) :
    List.Forall₂ Arg.Alike (rowArgs sessionId jumps joints)
      (rowArgs sessionId jumps (joints.map f)) := by
  have same (args : List Arg) : List.Forall₂ Arg.Alike args args :=
    List.forall₂_same.mpr fun arg _ => .refl arg
  refine .cons (.refl _) ?_
  induction joints generalizing jumps with
  | nil => simp
  | cons p joints ih =>
    cases jumps with
    | nil => exact .nil
    | cons jump jumps =>
      simp only [List.map_cons, List.zip_cons_cons, List.flatMap_cons]
      exact List.rel_append (List.rel_append (same _) (CoordinateJoint.args_alike p (f p))) (ih jumps)

/-- The walk from the origin comes to every joint. -/
theorem Valid.joints_perm (valid : s.Valid) : s.joints.Perm (s.graph.nodes.map (·.2)) := by
  have wf := valid.graph
  rw [joints, entries]
  cases anchored : s.origin with
  | none =>
    have none := valid.shaped anchored
    rw [Graph.isEmpty, beq_iff_eq, Graph.nodeCount_eq wf, List.length_eq_zero_iff] at none
    rw [none]
    exact .nil
  | some origin =>
    obtain ⟨_, _, trunk⟩ := Graph.anchor?_eq_some_iff.mp (valid.origin.symm.trans anchored)
    simp only [Graph.isAnchor, Graph.isTrunkOrigin, Bool.and_eq_true] at trunk
    simp only [Graph.entriesFrom, Graph.values_entriesOf, Graph.values_eq_filterMap wf]
    exact (Graph.walkFrom_perm wf trunk.2).filterMap _

theorem Reachable.moved [Joint P] [CoordinateJoint P] (reachable : s.Reachable) (motion : P → P) :
    s.Moved motion (s.mapJoints motion) where
  sessionId := rfl
  origin := rfl
  edges := rfl
  nodes := Graph.nodes_mapNodes motion
  joints := joints_mapJoints s motion
  all := reachable.valid.joints_perm
  args := by
    refine ⟨s.jumps, by simp [jumps, Skeleton.joints], s.args_eq_rowArgs, ?_⟩
    rw [args_eq_rowArgs, jumps_mapJoints, joints_mapJoints]
    rfl
  alike := by
    rw [args_eq_rowArgs, args_eq_rowArgs, jumps_mapJoints, joints_mapJoints]
    exact rowArgs_alike motion ..

/-- Whatever a transform does to a point it does to every joint of a skeleton, once to each. The
nodes and the edges stay the same in the same order, and the arguments differ in coordinates alone.
A transform of the plane moves skeletons of the plane as it moves a vertex, every transform those of
space. -/
theorem transforms_move_joints :
    (∀ s : Skeleton Point2, s.Reachable → ∀ t : Transform, t.OfPlane →
      ∃ motion s', t.vertex? = some motion ∧
        (∀ p, (lone p).transform2? t = some (lone (motion p))) ∧
        s.transform2? t = some s' ∧ s.Moved motion s') ∧
    ∀ s : Skeleton Point3, s.Reachable → ∀ t : Transform,
      (∀ p, (lone p).transform3 t = lone (t.spatial p)) ∧ s.Moved t.spatial (s.transform3 t) := by
  refine ⟨fun s reachable t plane => ?_, fun s reachable t => ?_⟩
  · obtain ⟨motion, applies⟩ := plane.vertex?
    refine ⟨motion, s.mapJoints motion, applies, fun p => ?_, ?_, reachable.moved motion⟩
    · rw [transform2?, applies]
      rfl
    · rw [transform2?, applies]
      rfl
  · exact ⟨fun p => rfl, reachable.moved t.spatial⟩

section Hand

variable (wrist palm thumb finger : P)

/-- The wrist is in a slot that was used before. -/
def handGraph : Graph P Unit :=
  Graph.empty.applyAll [.createNode finger, .removeNode ⟨0, 0⟩, .createNode wrist,
    .createNode palm, .createNode thumb, .createNode finger, .createEdge ⟨0, 1⟩ ⟨1, 0⟩ (),
    .createEdge ⟨1, 0⟩ ⟨2, 0⟩ (), .createEdge ⟨1, 0⟩ ⟨3, 0⟩ ()]

def hand : Skeleton P where
  sessionId := 6
  graph := handGraph wrist palm thumb finger
  origin := some ⟨0, 1⟩

theorem hand_reachable [Joint P] : (hand wrist palm thumb finger).Reachable := by
  have found : (handGraph wrist palm thumb finger).anchor? .trunkTree = some ⟨0, 1⟩ := by cbv
  have size : (handGraph wrist palm thumb finger).isEmpty = false := by cbv
  have taken : withGraph { sessionId := 6 } (handGraph wrist palm thumb finger) =
      .ok (hand wrist palm thumb finger) := by
    rw [withGraph, if_neg (by simp [size]), found]
    rfl
  exact .withGraph (.blank 6) (Graph.Reachable.empty.applyAll _) taken

theorem joints_hand : (hand wrist palm thumb finger).joints = [wrist, palm, thumb, finger] := by cbv

/-- The walk goes back to the palm for the finger. -/
theorem jumps_hand : (hand wrist palm thumb finger).jumps = [none, none, none, some 1] := by cbv

end Hand

/-- A move, a turn about a point, and a pitch about a line. -/
theorem transforms_move_joints_hand :
    let flat : Skeleton Point2 := hand ⟨1, 2⟩ ⟨3, 4⟩ ⟨5, 6⟩ ⟨7, 8⟩
    let deep : Skeleton Point3 := hand ⟨1, 2, 3⟩ ⟨4, 5, 6⟩ ⟨7, 8, 9⟩ ⟨10, 11, 12⟩
    let turned (x y : Single) : Point2 :=
      ⟨5 + (x - 5) * Angle.cos 9 - (y - 6) * Angle.sin 9,
        6 + (x - 5) * Angle.sin 9 + (y - 6) * Angle.cos 9⟩
    let pitched (x y z : Single) : Point3 :=
      ⟨x, 5 + (y - 5) * Angle.cos 9 - (z - 6) * Angle.sin 9,
        6 + (y - 5) * Angle.sin 9 + (z - 6) * Angle.cos 9⟩
    (flat.Reachable ∧
      (∃ motion s', flat.transform2? (.moveX 9) = some s' ∧ flat.Moved motion s' ∧
        s'.args = [.ofId 6, .float (1 + 9), .float (2 + 0), .float (3 + 9), .float (4 + 0),
          .float (5 + 9), .float (6 + 0), .bool true, .ofId 1, .float (7 + 9), .float (8 + 0)]) ∧
      ∃ motion s', flat.transform2? (.rotate 9 5 6) = some s' ∧ flat.Moved motion s' ∧
        s'.joints = [turned 1 2, turned 3 4, turned 5 6, turned 7 8]) ∧
      deep.Reachable ∧ deep.Moved (Transform.moveZ 9).spatial (deep.transform3 (.moveZ 9)) ∧
        (deep.transform3 (.moveZ 9)).joints =
          [⟨1, 2, 3 + 9⟩, ⟨4, 5, 6 + 9⟩, ⟨7, 8, 9 + 9⟩, ⟨10, 11, 12 + 9⟩] ∧
        (deep.transform3 (.pitch 9 ⟨4, 5, 6⟩)).joints =
          [pitched 1 2 3, pitched 4 5 6, pitched 7 8 9, pitched 10 11 12] := by
  intro flat deep turned pitched
  have made : flat.Reachable := hand_reachable ..
  have made' : deep.Reachable := hand_reachable ..
  obtain ⟨motion, s', -, -, applies, moved⟩ :=
    transforms_move_joints.1 flat made (.moveX 9) trivial
  obtain ⟨motion', s'', named, -, applies', moved'⟩ :=
    transforms_move_joints.1 flat made (.rotate 9 5 6) trivial
  have lifted := (transforms_move_joints.2 deep made' (.moveZ 9)).2
  have pitches := (transforms_move_joints.2 deep made' (.pitch 9 ⟨4, 5, 6⟩)).2
  refine ⟨⟨made, ⟨motion, s', applies, moved, ?_⟩, motion', s'', applies', moved', ?_⟩, made', lifted,
    ?_, ?_⟩
  · rw [← Option.some.inj applies, args_eq_rowArgs, jumps_mapJoints, joints_mapJoints, jumps_hand,
      joints_hand]
    rfl
  · rw [moved'.joints, joints_hand, ← Option.some.inj named]
    rfl
  · rw [lifted.joints, joints_hand]
    rfl
  · rw [pitches.joints, joints_hand]
    rfl

end Skeleton

end Tangible
