import Mathlib.Data.Multiset.ZeroCons
import Mathlib.Data.Set.Function
import Tangible.Graph.Isomorphism
import Tangible.Proofs.Graph.Change
import Tangible.Proofs.Graph.Isomorphism
import Tangible.Proofs.Lists

/-!
# Isomorphism is the existence of a pairing

A pairing is a bijection of the live nodes under which payloads compare equal and between every two
nodes run the same edges, as multisets of payloads. The search of `isIsomorphic` finds a pairing if
there is one (`isIsomorphic_iff`).

The pairs that the search has made are `Consistent`: they satisfy everything that a pairing asks of
their nodes. The search goes on exactly if they can be continued over the nodes that are left
(`pairUp_iff`), so it gives up no pairing when it gives up a pair. Comparing degrees gives up none
either, since a pairing keeps them (`Pairing.matches`).
-/

namespace Tangible.Graph

variable {N E : Type} [BEq N] [BEq E] {g h : Graph N E} {f : NodeId → NodeId}

/-- The payloads of the edges from one node to another. -/
def between (g : Graph N E) (source target : NodeId) : List E :=
  (g.edges.filter fun e => e.2.source = source ∧ e.2.target = target).map (·.2.value)

/-- Equal lists up to their order, as far as `==` tells items apart. -/
def SameItems {α : Type} [BEq α] (as bs : List α) : Prop :=
  Multiset.Rel (fun a b => a == b) (as : Multiset α) bs

structure Pairing (g h : Graph N E) (f : NodeId → NodeId) : Prop where
  bijOn : Set.BijOn f {n | n ∈ g.nodeIds} {n | n ∈ h.nodeIds}
  nodes : ∀ n x y, (n, x) ∈ g.nodes → (f n, y) ∈ h.nodes → x == y
  edges : ∀ u ∈ g.nodeIds, ∀ v ∈ g.nodeIds, SameItems (g.between u v) (h.between (f u) (f v))

/-! ## Lists of payloads -/

section Items

variable {α : Type} [BEq α] {a : α} {as bs rest : List α}

theorem SameItems.length_eq (same : SameItems as bs) : as.length = bs.length :=
  Multiset.card_eq_card_of_rel same

theorem exists_of_sameItems_cons (same : SameItems (a :: as) bs) :
    ∃ b bs', a == b ∧ Multiset.Rel (fun a b => a == b) (as : Multiset α) bs' ∧
      (bs : Multiset α) = b ::ₘ bs' := by
  rwa [SameItems, ← Multiset.cons_coe, Multiset.rel_cons_left] at same

theorem perm_of_removeFirst? (removed : removeFirst? a bs = some rest) :
    ∃ b, b == a ∧ bs.Perm (b :: rest) := by
  induction bs generalizing rest with
  | nil => simp [removeFirst?] at removed
  | cons first bs ih =>
    rw [removeFirst?] at removed
    split at removed
    · next same =>
      rw [Option.some.injEq] at removed
      exact ⟨first, same, removed ▸ .refl _⟩
    · obtain ⟨rest', removed', rfl⟩ := Option.map_eq_some_iff.mp removed
      obtain ⟨b, same, perm⟩ := ih removed'
      exact ⟨b, same, (perm.cons first).trans (.swap b first rest')⟩

theorem ne_of_removeFirst?_eq_none (none : removeFirst? a bs = none) : ∀ b ∈ bs, ¬ b == a := by
  induction bs with
  | nil => exact List.forall_mem_nil _
  | cons first bs ih =>
    rw [removeFirst?] at none
    split at none
    · simp at none
    · next apart => exact List.forall_mem_cons.mpr ⟨apart, ih (Option.map_eq_none_iff.mp none)⟩

variable [EquivBEq α]

/-- Items that equal each other can be taken away. -/
theorem sameItems_cons {b : α} (equal : a == b) :
    SameItems (a :: as) (b :: rest) ↔ SameItems as rest := by
  constructor
  · intro same
    obtain ⟨b', bs', equal', same', split⟩ := exists_of_sameItems_cons same
    rw [← Multiset.cons_coe] at split
    rcases Multiset.cons_eq_cons.mp split with ⟨_, rfl⟩ | ⟨_, cs, eq, rfl⟩
    · exact same'
    · -- `a` went with another item, which can be exchanged for the one that `b` went with
      have : IsTrans α fun a b => a == b := ⟨fun _ _ _ => PartialEquivBEq.trans⟩
      have exchange : Multiset.Rel (fun a b => a == b) (b ::ₘ cs) (b' ::ₘ cs) :=
        .cons (PartialEquivBEq.trans (PartialEquivBEq.symm equal) equal')
          (Multiset.rel_refl_of_refl_on fun _ _ => BEq.rfl)
      rw [SameItems, eq]
      exact Multiset.Rel.trans _ same' exchange
  · exact Multiset.Rel.cons equal

theorem sameItems_iff : sameItems as bs = true ↔ SameItems as bs := by
  induction as generalizing bs with
  | nil =>
    rw [sameItems, List.isEmpty_iff, SameItems, Multiset.coe_nil, Multiset.rel_zero_left,
      Multiset.coe_eq_zero]
  | cons a as ih =>
    rw [sameItems]
    cases removed : removeFirst? a bs with
    | some rest =>
      obtain ⟨b, equal, perm⟩ := perm_of_removeFirst? removed
      show sameItems as rest = true ↔ _
      rw [ih, ← sameItems_cons (PartialEquivBEq.symm equal), SameItems, SameItems,
        Multiset.coe_eq_coe.mpr perm]
    | none =>
      show false = true ↔ _
      refine ⟨fun no => absurd no Bool.false_ne_true, fun same => ?_⟩
      obtain ⟨b, bs', equal, _, split⟩ := exists_of_sameItems_cons same
      have inside : b ∈ (bs : Multiset α) := split ▸ Multiset.mem_cons_self b bs'
      exact absurd (PartialEquivBEq.symm equal) (ne_of_removeFirst?_eq_none removed b inside)

end Items

omit [BEq N] [BEq E] in
theorem payloadsBetween_eq (wf : g.WellFormed) (u v : NodeId) :
    g.payloadsBetween u v = g.between u v := by
  rw [payloadsBetween, outEdges_eq wf, between]
  induction g.edges with
  | nil => rfl
  | cons e edges ih =>
    by_cases source : e.2.source = u
    · by_cases target : e.2.target = v
      · simp [source, target, ih]
      · simp [source, target, ih]
    · simp [source, ih]

/-! ## What a pairing keeps -/

omit [BEq N] [BEq E] in
theorem bijOn_iff_perm {l l' : List NodeId} (nodup : l.Nodup) (nodup' : l'.Nodup) :
    Set.BijOn f {n | n ∈ l} {n | n ∈ l'} ↔ (l.map f).Perm l' := by
  constructor
  · intro bij
    refine (List.perm_ext_iff_of_nodup (nodup.map_on bij.injOn) nodup').mpr fun n => ?_
    rw [List.mem_map]
    constructor
    · rintro ⟨m, mem, rfl⟩
      exact bij.mapsTo mem
    · intro mem
      exact bij.surjOn mem
  · intro perm
    refine ⟨fun n mem => ?_, fun n mem m mem' same => ?_, fun n mem => ?_⟩
    · exact perm.mem_iff.mp (List.mem_map_of_mem mem)
    · exact List.inj_on_of_nodup_map (perm.nodup_iff.mpr nodup') mem mem' same
    · exact List.mem_map.mp (perm.mem_iff.mpr mem)

omit [BEq N] [BEq E] in
/-- As many edges run between two nodes as their payloads are listed. -/
theorem count_ends (u v : NodeId) :
    (g.edges.map fun e => (e.2.source, e.2.target)).count (u, v) = (g.between u v).length := by
  rw [between, List.length_map, List.count_eq_countP, List.countP_map,
    ← List.countP_eq_length_filter]
  refine List.countP_congr fun e _ => ?_
  simp

/-- Under a pairing the edges of one graph have the ends of the edges of the other. -/
theorem Pairing.matches (pairing : g.Pairing h f) (wfg : g.WellFormed) (wfh : h.WellFormed) :
    g.Matches h f where
  nodeIds := (bijOn_iff_perm (nodeIds_nodup wfg) (nodeIds_nodup wfh)).mp pairing.bijOn
  ends := by
    refine List.perm_iff_count.mpr fun (x, y) => ?_
    by_cases live : x ∈ h.nodeIds ∧ y ∈ h.nodeIds
    · obtain ⟨u, liveU, rfl⟩ := pairing.bijOn.surjOn live.1
      obtain ⟨v, liveV, rfl⟩ := pairing.bijOn.surjOn live.2
      have moved : (g.edges.map fun e => (f e.2.source, f e.2.target)).count (f u, f v) =
          (g.edges.map fun e => (e.2.source, e.2.target)).count (u, v) := by
        rw [List.count_eq_countP, List.count_eq_countP, List.countP_map, List.countP_map]
        refine List.countP_congr fun e inside => ?_
        have source := pairing.bijOn.injOn.eq_iff (source_mem wfg inside) liveU
        have target := pairing.bijOn.injOn.eq_iff (target_mem wfg inside) liveV
        simp [source, target]
      rw [moved, count_ends, count_ends]
      exact (pairing.edges u liveU v liveV).length_eq
    · -- no edge has an end that is not live
      have outside : (x, y) ∉ g.edges.map fun e => (f e.2.source, f e.2.target) := by
        intro mem
        obtain ⟨e, inside, same⟩ := List.mem_map.mp mem
        obtain ⟨rfl, rfl⟩ := Prod.mk.inj same
        exact live ⟨pairing.bijOn.mapsTo (source_mem wfg inside),
          pairing.bijOn.mapsTo (target_mem wfg inside)⟩
      have outside' : (x, y) ∉ h.edges.map fun e => (e.2.source, e.2.target) := by
        intro mem
        obtain ⟨e, inside, same⟩ := List.mem_map.mp mem
        obtain ⟨rfl, rfl⟩ := Prod.mk.inj same
        exact live ⟨source_mem wfh inside, target_mem wfh inside⟩
      rw [List.count_eq_zero_of_not_mem outside, List.count_eq_zero_of_not_mem outside']

/-! ## The search -/

/-- Everything that a pairing asks of the nodes that are paired so far. -/
structure Consistent (g h : Graph N E) (pairs : List (NodeId × NodeId)) : Prop where
  live : ∀ p ∈ pairs, p.2 ∈ h.nodeIds
  nodup : (pairs.map (·.2)).Nodup
  alike : ∀ p ∈ pairs, alike g h p.1 p.2
  edges : ∀ p ∈ pairs, ∀ q ∈ pairs,
    sameItems (g.payloadsBetween p.1 q.1) (h.payloadsBetween p.2 q.2)

variable {pairs more : List (NodeId × NodeId)} {p : NodeId × NodeId}

namespace Consistent

theorem nil : Consistent g h [] :=
  ⟨List.forall_mem_nil _, List.nodup_nil, List.forall_mem_nil _, List.forall_mem_nil _⟩

theorem of_append (consistent : Consistent g h (pairs ++ more)) : Consistent g h pairs := by
  have inside {p : NodeId × NodeId} (mem : p ∈ pairs) : p ∈ pairs ++ more :=
    List.mem_append_left more mem
  refine ⟨fun p mem => consistent.live p (inside mem), ?_,
    fun p mem => consistent.alike p (inside mem),
    fun p mem q mem' => consistent.edges p (inside mem) q (inside mem')⟩
  have nodup := consistent.nodup
  rw [List.map_append] at nodup
  exact nodup.of_append_left

/-- The tests that the search makes before it takes a pair. -/
theorem concat_iff : Consistent g h (pairs ++ [p]) ↔
    Consistent g h pairs ∧ p.2 ∈ h.nodeIds ∧ ¬ pairs.any (·.2 = p.2) ∧ Graph.alike g h p.1 p.2 ∧
      (pairs ++ [p]).all (sameEdges g h p) := by
  constructor
  · intro consistent
    have last : p ∈ pairs ++ [p] := List.mem_append_right _ (List.mem_singleton_self p)
    refine ⟨consistent.of_append, consistent.live p last, fun taken => ?_,
      consistent.alike p last, List.all_eq_true.mpr fun q mem => ?_⟩
    · obtain ⟨q, mem, same⟩ := List.any_eq_true.mp taken
      have nodup := consistent.nodup
      rw [List.map_append, List.nodup_append'] at nodup
      exact nodup.2.2 (List.mem_map_of_mem mem) (by simp [of_decide_eq_true same])
    · rw [sameEdges, Bool.and_eq_true]
      exact ⟨consistent.edges p last q mem, consistent.edges q mem p last⟩
  · rintro ⟨consistent, live, free, alike, edges⟩
    have same {q : NodeId × NodeId} (mem : q ∈ pairs ++ [p]) := List.all_eq_true.mp edges q mem
    simp only [sameEdges, Bool.and_eq_true] at same
    refine ⟨?_, ?_, ?_, fun q mem r mem' => ?_⟩
    · exact List.forall_mem_append.mpr ⟨consistent.live, List.forall_mem_singleton.mpr live⟩
    · rw [List.map_append, List.map_singleton, ← List.concat_eq_append]
      refine consistent.nodup.concat fun taken => free ?_
      obtain ⟨q, mem, same⟩ := List.mem_map.mp taken
      exact List.any_eq_true.mpr ⟨q, mem, decide_eq_true same⟩
    · exact List.forall_mem_append.mpr ⟨consistent.alike, List.forall_mem_singleton.mpr alike⟩
    · rcases List.mem_append.mp mem with old | new
      · rcases List.mem_append.mp mem' with old' | new'
        · exact consistent.edges q old r old'
        · obtain rfl := List.mem_singleton.mp new'
          exact (same mem).2
      · obtain rfl := List.mem_singleton.mp new
        exact (same mem').1

end Consistent

/-- The search goes on exactly if the pairs can be continued over the nodes that are left. -/
theorem pairUp_iff {todo : List NodeId} (consistent : Consistent g h pairs) :
    pairUp g h pairs todo = true ↔
      ∃ more, more.map (·.1) = todo ∧ Consistent g h (pairs ++ more) := by
  induction todo generalizing pairs with
  | nil =>
    refine ⟨fun _ => ⟨[], rfl, ?_⟩, fun _ => rfl⟩
    rwa [List.append_nil]
  | cons a todo ih =>
    simp only [pairUp, List.any_eq_true, Bool.and_eq_true, Bool.not_eq_true']
    constructor
    · rintro ⟨b, live, ⟨⟨free, alike⟩, edges⟩, found⟩
      have longer : Consistent g h (pairs ++ [(a, b)]) :=
        Consistent.concat_iff.mpr ⟨consistent, live, Bool.eq_false_iff.mp free, alike, edges⟩
      obtain ⟨more, rfl, all⟩ := (ih longer).mp found
      exact ⟨(a, b) :: more, rfl, by rwa [List.append_assoc] at all⟩
    · rintro ⟨more, split, all⟩
      obtain ⟨⟨a, b⟩, more, rfl, rfl, rfl⟩ := List.map_eq_cons_iff.mp split
      have split : pairs ++ (a, b) :: more = (pairs ++ [(a, b)]) ++ more := by
        rw [List.append_assoc]
        rfl
      have longer : Consistent g h (pairs ++ [(a, b)]) := (split ▸ all).of_append
      obtain ⟨_, live, free, alike, edges⟩ := Consistent.concat_iff.mp longer
      have found := (ih longer).mpr ⟨more, rfl, split ▸ all⟩
      exact ⟨b, live, ⟨⟨Bool.eq_false_iff.mpr free, alike⟩, edges⟩, found⟩

/-! ## Isomorphism -/

omit [BEq N] [BEq E] in
theorem some_of_mem_nodeIds (wf : g.WellFormed) {n : NodeId} (live : n ∈ g.nodeIds) :
    ∃ x, g.value? n = some x ∧ (n, x) ∈ g.nodes := by
  obtain ⟨x, found⟩ := (mem_nodeIds_iff_value? wf).mp live
  exact ⟨x, found, (value?_eq_some_iff wf).mp found⟩

/-- The pairs of a pairing pass every test of the search. -/
theorem Pairing.consistent [EquivBEq E] (pairing : g.Pairing h f) (wfg : g.WellFormed)
    (wfh : h.WellFormed) : Consistent g h (g.nodeIds.map fun n => (n, f n)) := by
  have both := pairing.matches wfg wfh
  refine ⟨fun p mem => ?_, ?_, fun p mem => ?_, fun p mem q mem' => ?_⟩
  · obtain ⟨n, live, rfl⟩ := List.mem_map.mp mem
    exact pairing.bijOn.mapsTo live
  · rw [List.map_map]
    exact both.nodeIds.nodup_iff.mpr (nodeIds_nodup wfh)
  · obtain ⟨n, live, rfl⟩ := List.mem_map.mp mem
    obtain ⟨x, found, inside⟩ := some_of_mem_nodeIds wfg live
    obtain ⟨y, found', inside'⟩ := some_of_mem_nodeIds wfh (pairing.bijOn.mapsTo live)
    simp only [alike, found, found', both.inDegree wfg wfh live, both.outDegree wfg wfh live,
      beq_self_eq_true, Bool.and_true]
    exact pairing.nodes n x y inside inside'
  · obtain ⟨u, liveU, rfl⟩ := List.mem_map.mp mem
    obtain ⟨v, liveV, rfl⟩ := List.mem_map.mp mem'
    rw [payloadsBetween_eq wfg, payloadsBetween_eq wfh, sameItems_iff]
    exact pairing.edges u liveU v liveV

/-- Consistent pairs of all the nodes make a pairing of graphs with equally many nodes. -/
theorem Consistent.pairing [EquivBEq E] (consistent : Consistent g h pairs) (wfg : g.WellFormed)
    (wfh : h.WellFormed) (all : pairs.map (·.1) = g.nodeIds) (many : g.nodeCount = h.nodeCount) :
    g.Pairing h fun n => (pairs.lookup n).getD n := by
  have nodup : (pairs.map (·.1)).Nodup := all ▸ nodeIds_nodup wfg
  have partner {p : NodeId × NodeId} (mem : p ∈ pairs) : (pairs.lookup p.1).getD p.1 = p.2 := by
    rw [lookup_eq_some_of_mem nodup mem]
    rfl
  have paired {n : NodeId} (live : n ∈ g.nodeIds) : (n, (pairs.lookup n).getD n) ∈ pairs := by
    obtain ⟨p, mem, rfl⟩ := List.mem_map.mp (all ▸ live)
    rwa [partner mem]
  have partners : (g.nodeIds.map fun n => (pairs.lookup n).getD n) = pairs.map (·.2) := by
    rw [← all, List.map_map]
    exact List.map_congr_left fun p mem => partner mem
  -- the partners are distinct and as many as the nodes of the other graph, so they are all of them
  have perm : (g.nodeIds.map fun n => (pairs.lookup n).getD n).Perm h.nodeIds := by
    rw [partners]
    refine (List.subperm_of_subset consistent.nodup fun n mem => ?_).perm_of_length_le ?_
    · obtain ⟨p, inside, rfl⟩ := List.mem_map.mp mem
      exact consistent.live p inside
    · rw [← partners, List.length_map, nodeIds, nodeIds, List.length_map, List.length_map]
      exact many.ge
  refine ⟨(bijOn_iff_perm (nodeIds_nodup wfg) (nodeIds_nodup wfh)).mpr perm, ?_, ?_⟩
  · intro n x y inside inside'
    have live : n ∈ g.nodeIds := nodeIds_eq wfg ▸ List.mem_map_of_mem inside
    have alike := consistent.alike _ (paired live)
    rw [Graph.alike, (value?_eq_some_iff wfg).mpr inside, (value?_eq_some_iff wfh).mpr inside',
      Bool.and_eq_true, Bool.and_eq_true] at alike
    exact alike.1.1
  · intro u liveU v liveV
    have same := consistent.edges _ (paired liveU) _ (paired liveV)
    rwa [payloadsBetween_eq wfg, payloadsBetween_eq wfh, sameItems_iff] at same

/-- Graphs compare equal if and only if there is a pairing of their nodes. -/
theorem isIsomorphic_iff [EquivBEq E] (reachable : g.Reachable) (reachable' : h.Reachable) :
    g.isIsomorphic h = true ↔ ∃ f, g.Pairing h f := by
  have wfg := reachable.wellFormed
  have wfh := reachable'.wellFormed
  simp only [isIsomorphic, Bool.and_eq_true, beq_iff_eq, pairUp_iff Consistent.nil,
    List.nil_append]
  constructor
  · rintro ⟨⟨many, -⟩, pairs, all, consistent⟩
    exact ⟨_, consistent.pairing wfg wfh all many⟩
  · rintro ⟨f, pairing⟩
    have both := pairing.matches wfg wfh
    refine ⟨⟨both.nodeCount.symm, (both.edgeCount wfg wfh).symm⟩, _, ?_,
      pairing.consistent wfg wfh⟩
    rw [List.map_map]
    exact List.map_id _

/-- Two edges between two nodes and a loop at the second. -/
def doubled : Graph Nat Nat :=
  empty.applyAll [.createNode 1, .createNode 2, .createEdge ⟨0, 0⟩ ⟨1, 0⟩ 7,
    .createEdge ⟨0, 0⟩ ⟨1, 0⟩ 8, .createEdge ⟨1, 0⟩ ⟨1, 0⟩ 9]

/-- The same in another order and in used slots, with the given payload on one edge. -/
def doubledAgain (value : Nat) : Graph Nat Nat :=
  empty.applyAll [.createNode 5, .createNode 2, .createEdge ⟨1, 0⟩ ⟨0, 0⟩ 4, .removeNode ⟨0, 0⟩,
    .createNode 1, .createEdge ⟨1, 0⟩ ⟨1, 0⟩ 9, .createEdge ⟨0, 1⟩ ⟨1, 0⟩ value,
    .createEdge ⟨0, 1⟩ ⟨1, 0⟩ 7]

/-- One payload decides, where all degrees agree. -/
theorem isIsomorphic_iff_doubled :
    doubled.Reachable ∧ (∀ value, (doubledAgain value).Reachable) ∧
      (∃ f, doubled.Pairing (doubledAgain 8) f) ∧ ¬ ∃ f, doubled.Pairing (doubledAgain 7) f := by
  have reachable : doubled.Reachable := Reachable.empty.applyAll _
  have again (value : Nat) : (doubledAgain value).Reachable := Reachable.empty.applyAll _
  refine ⟨reachable, again, ?_, fun pairing => ?_⟩
  · exact (isIsomorphic_iff reachable (again 8)).mp (by decide)
  · have found := (isIsomorphic_iff reachable (again 7)).mpr pairing
    exact absurd found (by decide)

end Tangible.Graph
