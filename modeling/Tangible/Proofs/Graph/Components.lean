import Tangible.Graph.Split
import Tangible.Proofs.Graph.Walk
import Tangible.Proofs.Lists

/-!
# Connected nodes

Two nodes are connected if a path along edges leads from one to the other whatever the direction of
the edges. A spread from a node meets exactly the nodes that are connected with it
(`spread_spec`): what it meets is reached from the frontier, and when the frontier is used up no
edge leads from a node that was met to one that was not.

So what is left after a spread is closed under edges again, and the groups that `componentsOf`
makes one after the other are the classes of connected nodes (`componentsOf_groups`).
-/

namespace Tangible.Graph

variable {N E : Type} {g : Graph N E}

/-- An edge connects the nodes in one direction or the other. -/
def Linked (g : Graph N E) (a b : NodeId) : Prop :=
  g.Leads a b ∨ g.Leads b a

def Connected (g : Graph N E) : NodeId → NodeId → Prop :=
  Relation.ReflTransGen g.Linked

theorem Linked.symm {a b : NodeId} (linked : g.Linked a b) : g.Linked b a :=
  Or.symm linked

theorem Connected.symm {a b : NodeId} (connected : g.Connected a b) : g.Connected b a := by
  induction connected with
  | refl => exact .refl
  | tail _ linked ih => exact .head linked.symm ih

theorem Linked.live (wf : g.WellFormed) {a b : NodeId} (linked : g.Linked a b) : b ∈ g.nodeIds := by
  obtain ⟨e, inside, -, rfl⟩ | ⟨e, inside, rfl, -⟩ := linked
  · exact target_mem wf inside
  · exact source_mem wf inside

theorem mem_neighbours (wf : g.WellFormed) {a b : NodeId} :
    b ∈ g.neighbours a ↔ g.Linked a b := by
  simp only [neighbours, successors, outEdges_eq wf, inEdges_eq wf, List.mem_append, List.mem_map,
    List.mem_filter, decide_eq_true_eq, Linked, Leads, and_assoc]
  refine or_congr Iff.rfl (exists_congr fun e => and_congr Iff.rfl ?_)
  exact and_comm

/-! ## Spreading from a frontier -/

theorem spread_perm (unvisited frontier : List NodeId) :
    ((g.spread unvisited frontier).1 ++ (g.spread unvisited frontier).2).Perm unvisited := by
  fun_induction g.spread unvisited frontier with
  | case1 => exact .refl _
  | case2 unvisited id frontier new met rest spread ih =>
    rw [spread] at ih
    exact (List.Perm.cons id ih).trans (List.perm_cons_erase new).symm
  | case3 unvisited id frontier old ih => exact ih

/-- What is met is connected with the frontier. -/
theorem spread_reached (wf : g.WellFormed) (origin : NodeId) (unvisited frontier : List NodeId)
    (reached : ∀ id ∈ frontier, g.Connected origin id) :
    ∀ id ∈ (g.spread unvisited frontier).1, g.Connected origin id := by
  fun_induction g.spread unvisited frontier with
  | case1 => simp
  | case2 unvisited id frontier new met rest spread ih =>
    rw [spread] at ih
    obtain ⟨here, waiting⟩ := List.forall_mem_cons.mp reached
    refine List.forall_mem_cons.mpr ⟨here, ih fun next mem => ?_⟩
    rcases List.mem_append.mp mem with later | near
    · exact waiting next later
    · exact here.tail ((mem_neighbours wf).mp near)
  | case3 unvisited id frontier old ih => exact ih (List.forall_mem_cons.mp reached).2

/-- The frontier is met as far as it was not visited, and so are the neighbours of met nodes. -/
theorem spread_closed (wf : g.WellFormed) (unvisited frontier : List NodeId) :
    (∀ id ∈ frontier, id ∈ unvisited → id ∈ (g.spread unvisited frontier).1) ∧
      ∀ a ∈ (g.spread unvisited frontier).1, ∀ b, g.Linked a b → b ∈ unvisited →
        b ∈ (g.spread unvisited frontier).1 := by
  fun_induction g.spread unvisited frontier with
  | case1 => simp
  | case2 unvisited id frontier new met rest spread ih =>
    rw [spread] at ih
    obtain ⟨waiting, closed⟩ := ih
    -- whatever is left beside the new node is met from the longer frontier
    have onward {b : NodeId} (inside : b ∈ unvisited)
        (next : b ≠ id → b ∈ unvisited.erase id → b ∈ met) : b ∈ id :: met := by
      by_cases same : b = id
      · exact same ▸ List.mem_cons_self ..
      · exact List.mem_cons_of_mem _ (next same ((List.mem_erase_of_ne same).mpr inside))
    constructor
    · intro b mem inside
      refine onward inside fun other left => waiting b (List.mem_append_left _ ?_) left
      exact (List.mem_cons.mp mem).resolve_left other
    · intro a mem b linked inside
      refine onward inside fun _ left => ?_
      rcases List.mem_cons.mp mem with rfl | later
      · exact waiting b (List.mem_append_right _ ((mem_neighbours wf).mpr linked)) left
      · exact closed a later b linked left
  | case3 unvisited id frontier old ih =>
    obtain ⟨waiting, closed⟩ := ih
    refine ⟨fun b mem inside => ?_, closed⟩
    rcases List.mem_cons.mp mem with rfl | later
    · exact absurd inside old
    · exact waiting b later inside

/-- Nodes from which no edge leads out. -/
def Closed (g : Graph N E) (ids : List NodeId) : Prop :=
  ∀ a ∈ ids, ∀ b, g.Linked a b → b ∈ ids

theorem Closed.connected {ids : List NodeId} (closed : g.Closed ids) {a b : NodeId}
    (inside : a ∈ ids) (connected : g.Connected a b) : b ∈ ids := by
  induction connected with
  | refl => exact inside
  | tail _ linked ih => exact closed _ ih _ linked

/-- From a node of a closed list a spread meets the nodes that are connected with it. The others
are closed again. -/
theorem spread_spec (wf : g.WellFormed) {unvisited met rest : List NodeId}
    (nodup : unvisited.Nodup) (closed : g.Closed unvisited) {start : NodeId}
    (inside : start ∈ unvisited) (spread : g.spread unvisited [start] = (met, rest)) :
    (met ++ rest).Perm unvisited ∧ (∀ id, id ∈ met ↔ g.Connected start id) ∧ g.Closed rest := by
  have perm := spread_perm (g := g) unvisited [start]
  have reached := spread_reached wf start unvisited [start] (List.forall_mem_singleton.mpr .refl)
  obtain ⟨waiting, near⟩ := spread_closed wf unvisited [start]
  rw [spread] at perm reached waiting near
  have begun : start ∈ met := waiting start (List.mem_singleton_self _) inside
  have apart : met.Disjoint rest := (perm.nodup_iff.mpr nodup).disjoint
  have metClosed : g.Closed met := fun a mem b linked =>
    near a mem b linked (closed a (perm.subset (List.mem_append_left _ mem)) b linked)
  refine ⟨perm, fun id => ⟨reached id, metClosed.connected begun⟩, fun a mem b linked => ?_⟩
  have left : b ∈ unvisited := closed a (perm.subset (List.mem_append_right _ mem)) b linked
  -- an edge into what was met would have been gone along from there
  refine (List.mem_append.mp (perm.mem_iff.mpr left)).resolve_left fun other => ?_
  exact apart (metClosed b other a linked.symm) mem

/-! ## Groups -/

/-- The groups divide the nodes of `ids` into classes of connected nodes. Each group has a node
that comes before all nodes of the groups behind it. -/
structure Groups (g : Graph N E) (order ids : List NodeId) (groups : List (List NodeId)) :
    Prop where
  perm : groups.flatten.Perm ids
  classes : ∀ group ∈ groups, ∃ start ∈ group, ∀ id, id ∈ group ↔ g.Connected start id
  ordered : groups.Pairwise fun earlier later =>
    ∃ a ∈ earlier, ∀ b ∈ later, order.idxOf a < order.idxOf b

/-- An earlier node that is in no group changes nothing about the order. -/
theorem Groups.cons_order {order ids : List NodeId} {groups : List (List NodeId)}
    (valid : g.Groups order ids groups) {first : NodeId} (apart : first ∉ ids) :
    g.Groups (first :: order) ids groups := by
  refine ⟨valid.perm, valid.classes, valid.ordered.imp_of_mem fun {earlier later} here there => ?_⟩
  rintro ⟨a, mem, before⟩
  have place {group : List NodeId} (listed : group ∈ groups) {b : NodeId} (mem : b ∈ group) :
      (first :: order).idxOf b = order.idxOf b + 1 := by
    refine List.idxOf_cons_ne _ fun same => apart ?_
    exact same ▸ valid.perm.subset (List.mem_flatten_of_mem listed mem)
  refine ⟨a, mem, fun b mem' => ?_⟩
  rw [place here mem, place there mem']
  exact Nat.succ_lt_succ (before b mem')

theorem componentsOf_groups (wf : g.WellFormed) {starts unvisited : List NodeId}
    (covered : ∀ id ∈ unvisited, id ∈ starts) (nodup : unvisited.Nodup)
    (closed : g.Closed unvisited) :
    g.Groups starts unvisited (g.componentsOf starts unvisited) := by
  induction starts generalizing unvisited with
  | nil =>
    obtain rfl : unvisited = [] := List.eq_nil_iff_forall_not_mem.mpr fun id mem => by
      simpa using covered id mem
    exact ⟨.refl _, by simp [componentsOf], .nil⟩
  | cons start starts ih =>
    rw [componentsOf]
    by_cases inside : start ∈ unvisited
    · rw [if_pos inside]
      rcases spread : g.spread unvisited [start] with ⟨met, rest⟩
      obtain ⟨perm, meets, closed'⟩ := spread_spec wf nodup closed inside spread
      have split : (met ++ rest).Nodup := perm.nodup_iff.mpr nodup
      have begun : start ∈ met := (meets start).mpr .refl
      have fresh : start ∉ rest := List.disjoint_left.mp split.disjoint begun
      have left : ∀ id ∈ rest, id ∈ starts := fun id mem =>
        (List.mem_cons.mp (covered id (perm.subset (List.mem_append_right _ mem)))).resolve_left
          fun same => fresh (same ▸ mem)
      have later := ih left (List.nodup_append.mp split).2.1 closed'
      have behind := later.cons_order fresh
      refine ⟨?_, ?_, ?_⟩
      · rw [List.flatten_cons]
        exact (later.perm.append_left met).trans perm
      · exact List.forall_mem_cons.mpr ⟨⟨start, begun, meets⟩, later.classes⟩
      · refine List.pairwise_cons.mpr ⟨fun group listed => ?_, behind.ordered⟩
        refine ⟨start, begun, fun b mem => ?_⟩
        have other : b ≠ start := fun same =>
          fresh (same ▸ later.perm.subset (List.mem_flatten_of_mem listed mem))
        rw [List.idxOf_cons_self, List.idxOf_cons_ne _ other.symm]
        exact Nat.succ_pos _
    · rw [if_neg inside]
      have left : ∀ id ∈ unvisited, id ∈ starts := fun id mem =>
        (List.mem_cons.mp (covered id mem)).resolve_left fun same => inside (same ▸ mem)
      exact (ih left nodup closed).cons_order inside

theorem groups_spec (wf : g.WellFormed) : g.Groups g.nodeIds g.nodeIds g.groups :=
  componentsOf_groups wf (fun _ mem => mem) (nodeIds_nodup wf) fun _ _ _ linked => linked.live wf

end Tangible.Graph
