import Tangible.Proofs.Message.RoundTrip

/-!
# Messages with graphs written again

A message with a graph that is read back is equal up to the handles of its nodes and edges. The
handles cannot be seen in what is written: the message that was read has the same arguments and
lists the same links, sessions or joints in the same order (`Message.parse?_toOsc`), however the
graph was made.
-/

namespace Tangible

open Osc (Arg)

theorem Kind.parse?_eq_read? {m : Message} (notGeneric : m.kind ≠ .generic) :
    m.kind.parse? m.toOsc = m.kind.read? m.args := by
  have named : m.kind.address? = some m.toOsc.address := by
    cases m with
    | generic g => exact absurd rfl notGeneric
    | _ => rfl
  rw [parse?, if_pos named]
  rfl

namespace Message

/-- What a message with a graph lists in wire order. -/
inductive Listing where
  | links (links : List (UInt32 × Ports))
  | sessions (sessions : List UInt32)
  | joints2 (joints : List Point2)
  | joints3 (joints : List Point3)

/-- The links of a star, the sessions of a chain or of a tree, the joints of a skeleton. -/
def listing? : Message → Option Listing
  | .linkStar l => some (.links l.direct)
  | .linkChain l => some (.sessions l.sessions)
  | .linkTree l => some (.sessions l.sessions)
  | .skeleton2 s => some (.joints2 s.joints)
  | .skeleton3 s => some (.joints3 s.joints)
  | _ => none

/-- Trees and skeletons name places, which have 32 bits as the slots of their nodes have. The other
shapes name none. -/
def Addressable : Message → Prop
  | .linkTree l => l.graph.Addressable
  | .skeleton2 s => s.graph.Addressable
  | .skeleton3 s => s.graph.Addressable
  | _ => True

end Message

theorem Links.ofArgs?_args_listing {shape : Topology} {l : Links shape} (reachable : l.Reachable)
    (addressable : shape = .trunkTree → l.graph.Addressable) :
    ∃ l' : Links shape, ofArgs? l.args = some l' ∧ l.Same l' ∧ l'.args = l.args ∧
      l'.direct = l.direct ∧ l'.sessions = l.sessions := by
  have valid := reachable.valid
  have small (tree : shape = .trunkTree) : l.graph.nodeCount ≤ 2 ^ 32 :=
    (addressable tree).nodeCount_le valid.graph
  obtain ⟨l', f, read, copies⟩ := ofArgs?_args_copies valid small
  exact ⟨l', read, copies.same, copies.args valid, copies.direct valid,
    congrArg (List.map Entry.value) (copies.entries valid)⟩

theorem Skeleton.ofArgs?_args_listing {P : Type} [Joint P] [LawfulJoint P] {s : Skeleton P}
    (reachable : s.Reachable) (addressable : s.graph.Addressable) :
    ∃ s' : Skeleton P, ofArgs? s.args = some s' ∧ s.Same s' ∧ s'.args = s.args ∧
      s'.joints = s.joints := by
  have valid := reachable.valid
  obtain ⟨s', f, read, copies⟩ := ofArgs?_args_copies valid (addressable.nodeCount_le valid.graph)
  exact ⟨s', read, copies.same, copies.args valid,
    congrArg (List.map Entry.value) (copies.entries valid)⟩

/-- Every message with a graph reads back from what is written of it, and is written the same way
again. -/
theorem Message.parse?_toOsc {m : Message} (reachable : m.Reachable)
    (addressable : m.Addressable) (graph : m.listing?.isSome) :
    ∃ m', m.kind.parse? m.toOsc = some m' ∧ m.Same m' ∧ m'.args = m.args ∧
      m'.listing? = m.listing? := by
  have notGeneric : m.kind ≠ .generic := by
    cases m with
    | generic g => simp [listing?] at graph
    | _ => simp [kind]
  rw [Kind.parse?_eq_read? notGeneric]
  cases m with
  | linkStar l =>
    obtain ⟨l', read, same, args, direct, _⟩ :=
      Links.ofArgs?_args_listing reachable (by simp)
    refine ⟨.linkStar l', congrArg (Option.map Message.linkStar) read, .linkStar same, args, ?_⟩
    rw [listing?, listing?, direct]
  | linkChain l =>
    obtain ⟨l', read, same, args, _, sessions⟩ :=
      Links.ofArgs?_args_listing reachable (by simp)
    refine ⟨.linkChain l', congrArg (Option.map Message.linkChain) read, .linkChain same, args, ?_⟩
    rw [listing?, listing?, sessions]
  | linkTree l =>
    obtain ⟨l', read, same, args, _, sessions⟩ :=
      Links.ofArgs?_args_listing reachable fun _ => addressable
    refine ⟨.linkTree l', congrArg (Option.map Message.linkTree) read, .linkTree same, args, ?_⟩
    rw [listing?, listing?, sessions]
  | skeleton2 s =>
    obtain ⟨s', read, same, args, joints⟩ := Skeleton.ofArgs?_args_listing reachable addressable
    refine ⟨.skeleton2 s', congrArg (Option.map Message.skeleton2) read, .skeleton2 same, args, ?_⟩
    rw [listing?, listing?, joints]
  | skeleton3 s =>
    obtain ⟨s', read, same, args, joints⟩ := Skeleton.ofArgs?_args_listing reachable addressable
    refine ⟨.skeleton3 s', congrArg (Option.map Message.skeleton3) read, .skeleton3 same, args, ?_⟩
    rw [listing?, listing?, joints]
  | _ => simp [listing?] at graph

namespace Links

/-- Four nodes, the second of them in the slot of a node that is gone. -/
def regrownNodes : LinkGraph :=
  let g := (((Graph.empty.createNode 0).2.createNode 7).2.createNode 8).2
  (((g.removeNode ⟨⟨1, 0⟩⟩).createNode 9).2.createNode 10).2

/-- A trunk with two branches. The links were made in another order than the walk takes them. -/
def regrownTree? : Option LinkGraph := do
  let (_, g) ← regrownNodes.createEdge? ⟨⟨2, 0⟩⟩ ⟨⟨1, 1⟩⟩ ⟨5, 6⟩
  let (_, g) ← g.createEdge? ⟨⟨0, 0⟩⟩ ⟨⟨2, 0⟩⟩ ⟨1, 2⟩
  let (_, g) ← g.createEdge? ⟨⟨2, 0⟩⟩ ⟨⟨3, 0⟩⟩ ⟨3, 4⟩
  return g

def regrown : Links .trunkTree where
  sessionId := 5
  graph := (regrownTree?.getD .empty).setNode ⟨⟨0, 0⟩⟩ 5
  anchor := some ⟨⟨0, 0⟩⟩

theorem regrownNodes_reachable : regrownNodes.Reachable :=
  ((((Graph.Reachable.empty.createNode 0).createNode 7).createNode 8).removeNode _
    |>.createNode 9).createNode 10

theorem regrownTree_reachable : (regrownTree?.getD .empty).Reachable := by
  have steps : ∃ id g, regrownNodes.createEdge? ⟨⟨2, 0⟩⟩ ⟨⟨1, 1⟩⟩ ⟨5, 6⟩ = some (id, g) ∧
      ∃ id g', g.createEdge? ⟨⟨0, 0⟩⟩ ⟨⟨2, 0⟩⟩ ⟨1, 2⟩ = some (id, g') ∧
      ∃ id g'', g'.createEdge? ⟨⟨2, 0⟩⟩ ⟨⟨3, 0⟩⟩ ⟨3, 4⟩ = some (id, g'') ∧
        regrownTree? = some g'' :=
    ⟨_, _, rfl, _, _, rfl, _, _, rfl, rfl⟩
  obtain ⟨_, g, made, _, g', made', _, g'', made'', same⟩ := steps
  rw [same]
  exact ((regrownNodes_reachable.createEdge made).createEdge made').createEdge made''

theorem regrown_reachable : regrown.Reachable := by
  have taken : Links.withGraph { sessionId := 5 } (regrownTree?.getD .empty) = .ok regrown := by
    have found : (regrownTree?.getD .empty).anchor? .trunkTree = some ⟨⟨0, 0⟩⟩ := by cbv
    rw [Links.withGraph, if_neg (by decide), found]
    rfl
  exact .withGraph (.blank 5 false) regrownTree_reachable taken

end Links

theorem Message.parse?_toOsc_regrown :
    (Message.linkTree .regrown).Reachable ∧ (Message.linkTree .regrown).Addressable ∧
      (Message.linkTree .regrown).listing? = some (.sessions [5, 8, 9, 10]) ∧
      ∃ m', Kind.linkTree.parse? (Message.linkTree .regrown).toOsc = some m' ∧
        (Message.linkTree .regrown).Same m' ∧
        m'.args = [.ofId 5, .bool false, .ofId 8, .ofId 0x10002, .ofId 9, .ofId 0x50006,
          .bool true, .ofId 1, .ofId 10, .ofId 0x30004] ∧
        m'.listing? = some (.sessions [5, 8, 9, 10]) := by
  have reachable : (Message.linkTree .regrown).Reachable := Links.regrown_reachable
  have addressable : (Message.linkTree .regrown).Addressable := by
    show ∀ id ∈ Links.regrown.graph.nodeIds, id.handle.slot < 2 ^ 32
    decide
  have listing : (Message.linkTree .regrown).listing? = some (.sessions [5, 8, 9, 10]) := by cbv
  have args : (Message.linkTree .regrown).args = [.ofId 5, .bool false, .ofId 8, .ofId 0x10002,
      .ofId 9, .ofId 0x50006, .bool true, .ofId 1, .ofId 10, .ofId 0x30004] := by cbv
  rw [← args, ← listing]
  refine ⟨reachable, addressable, rfl, ?_⟩
  exact Message.parse?_toOsc reachable addressable (by rw [listing]; rfl)

end Tangible
