import Mathlib.Data.List.Basic
import Tangible.Proofs.Graph.Growth

/-!
# Entries in the order of a walk

A depth-first walk goes on from the node visited last or from one of its ancestors. The nodes that
it may go on from are the spine, and a node that it leaves behind does not come back (`Nested`).
The edges of a walk are nested (`walkFrom_nested`), and edges that are nested come in the order of a
walk: their order is determined by the order at every node (`Nested.unique`).

The entries of a tree are therefore written again as they were if and only if every separator names
a proper ancestor of the entry before it (`Grown.entriesFrom_eq_iff`).
-/

namespace Tangible

/-! ## Nested arrows -/

section Nested

variable {α β : Type} {spine : List α} {arrows : List (α × α)} {a b : α}

/-- Each arrow leaves a node of the spine and puts its end on top of it. The nodes above are
dropped. -/
inductive Nested : List α → List (α × α) → Prop where
  | nil (spine : List α) : Nested spine []
  | cons (left : List α) {kept : List α} {a b : α} {arrows : List (α × α)} :
      Nested (b :: a :: kept) arrows → Nested (left ++ a :: kept) ((a, b) :: arrows)

theorem nested_cons_iff : Nested spine ((a, b) :: arrows) ↔
    ∃ left kept, spine = left ++ a :: kept ∧ Nested (b :: a :: kept) arrows := by
  constructor
  · intro nested
    generalize listed : (a, b) :: arrows = row at nested
    cases nested with
    | nil => cases listed
    | cons left later =>
      cases listed
      exact ⟨left, _, rfl, later⟩
  · rintro ⟨left, kept, rfl, nested⟩
    exact .cons left nested

namespace Nested

theorem map (f : α → β) (nested : Nested spine arrows) :
    Nested (spine.map f) (arrows.map (Prod.map f f)) := by
  induction nested with
  | nil spine => exact .nil _
  | cons left _ ih =>
    rw [List.map_append, List.map_cons]
    exact .cons _ ih

theorem source_mem (nested : Nested spine arrows) :
    ∀ arrow ∈ arrows, arrow.1 ∈ spine ∨ arrow.1 ∈ arrows.map Prod.snd := by
  induction nested with
  | nil spine => exact List.forall_mem_nil _
  | @cons left kept a b arrows _ ih =>
    refine List.forall_mem_cons.mpr ⟨.inl (by simp), fun arrow mem => ?_⟩
    rw [List.map_cons, List.mem_append, List.mem_cons (b := b)]
    rcases ih arrow mem with above | behind
    · rcases List.mem_cons.mp above with top | below
      · exact .inr (.inl top)
      · exact .inl (.inr below)
    · exact .inr (.inr behind)

/-- What was dropped from the spine is not left again. -/
theorem not_left_again {left kept : List α} (nested : Nested (b :: a :: kept) arrows)
    (nodup : (left ++ a :: kept ++ b :: arrows.map Prod.snd).Nodup) {x : α} (dropped : x ∈ left) :
    ∀ arrow ∈ (a, b) :: arrows, arrow.1 ≠ x := by
  have apart : ∀ y ∈ a :: kept ++ b :: arrows.map Prod.snd, y ≠ x := by
    rw [List.append_assoc] at nodup
    exact fun y mem same => (List.nodup_append.mp nodup).2.2 x dropped y mem same.symm
  refine List.forall_mem_cons.mpr ⟨apart a (by simp), fun arrow mem => apart _ ?_⟩
  rcases nested.source_mem arrow mem with above | behind
  · rcases List.mem_cons.mp above with top | below
    · rw [top]
      simp
    · exact List.mem_append_left _ below
  · exact List.mem_append_right _ (List.mem_cons_of_mem _ behind)

section Unique

variable [DecidableEq α] {f : β → α × α} {x x' : β} {l l' : List β}

/-- Two lists that leave every node in the same way go on from the same node of the spine: the node
that is above would be dropped by the other list. -/
theorem same_source {left left' kept kept' more : List α}
    (nested' : Nested ((f x').2 :: (f x').1 :: kept') (l'.map f))
    (nodup' : (left' ++ (f x').1 :: kept' ++ ((x' :: l').map f).map Prod.snd).Nodup)
    (ordered : (x :: l).filter (fun y => (f y).1 = (f x).1) =
      (x' :: l').filter fun y => (f y).1 = (f x).1)
    (above : left' = left ++ more) (below : (f x).1 :: kept = more ++ (f x').1 :: kept') :
    (f x).1 = (f x').1 ∧ kept = kept' := by
  cases more with
  | nil => exact List.cons.inj below
  | cons c more =>
    have dropped : (f x).1 ∈ left' := by
      rw [above, (List.cons.inj below).1]
      simp
    have never := nested'.not_left_again nodup' dropped
    have none : (x' :: l').filter (fun y => (f y).1 = (f x).1) = [] := by
      rw [List.filter_eq_nil_iff]
      intro y mem
      simpa using never (f y) (List.mem_map_of_mem (f := f) mem)
    simp [none] at ordered

/-- Nested arrows are determined by those that leave each node. -/
theorem unique (nested : Nested spine (l.map f)) (nested' : Nested spine (l'.map f))
    (nodup : (spine ++ (l.map f).map Prod.snd).Nodup)
    (nodup' : (spine ++ (l'.map f).map Prod.snd).Nodup)
    (ordered : ∀ a, l.filter (fun x => (f x).1 = a) = l'.filter fun x => (f x).1 = a) : l = l' := by
  induction l generalizing spine l' with
  | nil =>
    cases l' with
    | nil => rfl
    | cons x' l' => simpa using ordered (f x').1
  | cons x l ih =>
    cases l' with
    | nil => simpa using ordered (f x).1
    | cons x' l' =>
      obtain ⟨left, kept, rfl, later⟩ := nested_cons_iff.mp nested
      obtain ⟨left', kept', split, later'⟩ := nested_cons_iff.mp nested'
      have same : (f x).1 = (f x').1 ∧ kept = kept' := by
        rcases List.append_eq_append_iff.mp split with ⟨more, above, below⟩ | ⟨more, above, below⟩
        · exact same_source later' (split ▸ nodup') (ordered _) above below
        · exact (same_source later nodup (ordered _).symm above below).imp Eq.symm Eq.symm
      obtain ⟨source, rfl⟩ := same
      obtain ⟨rfl, behind⟩ := cons_of_ordered (fun y => (f y).1) source ordered
      have top : ∀ {row : List β},
          (left ++ (f x).1 :: kept ++ ((x :: row).map f).map Prod.snd).Nodup →
            ((f x).2 :: (f x).1 :: kept ++ (row.map f).map Prod.snd).Nodup := by
        intro row nodup
        rw [List.append_assoc] at nodup
        exact List.perm_middle.nodup_iff.mp (List.nodup_append.mp nodup).2.1
      rw [ih later later' (top nodup) (top nodup') behind]

end Unique

end Nested

end Nested

namespace Graph

variable {N E : Type} {g : Graph N E}

/-! ## The edges of a walk are nested -/

/-- The two ends of an edge. -/
def arrow (e : EdgeId × Edge E) : NodeId × NodeId := (e.2.source, e.2.target)

/-- The steps of a stack leave the nodes of a spine, those of the top first. -/
inductive Waits : List NodeId → List Step → Prop where
  | nil (spine : List NodeId) : Waits spine []
  | here {a : NodeId} {kept : List NodeId} {step : Step} {stack : List Step} :
      step.parent = some a → Waits (a :: kept) stack → Waits (a :: kept) (step :: stack)
  | under {a : NodeId} {kept : List NodeId} {stack : List Step} :
      Waits kept stack → Waits (a :: kept) stack

namespace Waits

variable {spine : List NodeId} {stack : List Step}

theorem append_left (left : List NodeId) (waits : Waits spine stack) :
    Waits (left ++ spine) stack := by
  induction left with
  | nil => exact waits
  | cons a left ih => exact ih.under

theorem push {b : NodeId} {steps : List Step} (behind : ∀ step ∈ steps, step.parent = some b)
    (waits : Waits spine stack) : Waits (b :: spine) (steps ++ stack) := by
  induction steps with
  | nil => exact waits.under
  | cons step steps ih =>
    rw [List.forall_mem_cons] at behind
    exact .here behind.1 (ih behind.2)

theorem pop {step : Step} (waits : Waits spine (step :: stack)) :
    ∃ left a kept, spine = left ++ a :: kept ∧ step.parent = some a ∧ Waits (a :: kept) stack := by
  induction spine with
  | nil => cases waits
  | cons a spine ih =>
    cases waits with
    | here parent rest => exact ⟨[], a, spine, rfl, parent, rest⟩
    | under rest =>
      obtain ⟨left, b, kept, rfl, parent, later⟩ := ih rest
      exact ⟨a :: left, b, kept, rfl, parent, later⟩

end Waits

theorem parent_stepsFrom (wf : g.WellFormed) (id : NodeId) :
    ∀ step ∈ g.stepsFrom id, step.parent = some id := by
  intro step mem
  obtain ⟨e, -, source, rfl⟩ := (mem_stepsFrom wf).mp mem
  exact congrArg some source

theorem walk_nested (wf : g.WellFormed) {unvisited spine : List NodeId} {stack : List Step}
    (waits : Waits spine stack) {edges : List (EdgeId × Edge E)}
    (walked : g.walk unvisited stack = edges.map stepAlong) : Nested spine (edges.map arrow) := by
  fun_induction g.walk unvisited stack generalizing spine edges with
  | case1 =>
    obtain rfl := List.map_eq_nil_iff.mp walked.symm
    exact .nil spine
  | case2 unvisited step stack new ih =>
    cases edges with
    | nil => cases walked
    | cons e edges =>
      obtain ⟨rfl, later⟩ := List.cons.inj walked
      obtain ⟨left, a, kept, rfl, parent, rest⟩ := waits.pop
      obtain rfl : e.2.source = a := Option.some.inj parent
      exact .cons left (ih (rest.push (parent_stepsFrom wf _)) later)
  | case3 unvisited step stack old ih =>
    obtain ⟨left, a, kept, rfl, -, rest⟩ := waits.pop
    exact ih (rest.append_left left) walked

theorem walkFrom_nested (wf : g.WellFormed) {origin : NodeId} (live : origin ∈ g.nodeIds)
    {edges : List (EdgeId × Edge E)}
    (walked : g.walkFrom origin = ⟨none, none, origin⟩ :: edges.map stepAlong) :
    Nested [origin] (edges.map arrow) := by
  rw [walkFrom, walk, if_pos live] at walked
  exact walk_nested wf ((Waits.nil []).push (parent_stepsFrom wf origin)) (List.cons.inj walked).2

end Graph

/-! ## Ancestors -/

section Ancestors

variable {N E : Type}

/-- The entry at the place of the child hangs below the place of the parent. -/
def IsParent (entries : List (Entry N E)) (parent child : Nat) : Prop :=
  ∃ entry, (entry, child) ∈ entries.zipIdx 1 ∧ entry.parentPlace child = parent

/-- Every separator names a proper ancestor of the entry before the one that it stands at. -/
def Canonical (entries : List (Entry N E)) : Prop :=
  ∀ row ∈ entries.zipIdx 1, ∀ place ∈ row.1.parent,
    Relation.TransGen (IsParent entries) place.toNat (row.2 - 1)

/-- No separator names the entry before the one that it stands at. -/
def Terse (entries : List (Entry N E)) (first : Nat) : Prop :=
  ∀ row ∈ entries.zipIdx first, ∀ place ∈ row.1.parent, place.toNat ≠ row.2 - 1

/-- The places of the parents with the places of the entries. -/
def parentage (entries : List (Entry N E)) (first : Nat) : List (Nat × Nat) :=
  (entries.zipIdx first).map fun row => (row.1.parentPlace row.2, row.2)

/-- A place with its parent, the parent of that and so on to the origin. -/
inductive Lineage (entries : List (Entry N E)) : List Nat → Prop where
  | origin : Lineage entries [0]
  | child {a b : Nat} {kept : List Nat} :
      IsParent entries a b → Lineage entries (a :: kept) → Lineage entries (b :: a :: kept)

variable {entries rest : List (Entry N E)} {a b c : Nat}

theorem IsParent.unique (first : IsParent entries a c) (second : IsParent entries b c) : a = b := by
  obtain ⟨entry, mem, rfl⟩ := first
  obtain ⟨entry', mem', rfl⟩ := second
  rw [List.mem_zipIdx_iff_le_and_getElem?_sub] at mem mem'
  have same : entry = entry' := Option.some.inj (mem.2.symm.trans mem'.2)
  rw [same]

theorem not_isParent_zero : ¬ IsParent entries a 0 := by
  rintro ⟨entry, mem, -⟩
  exact absurd (List.le_snd_of_mem_zipIdx mem) (Nat.not_succ_le_zero 0)

theorem IsParent.lt (known : Known entries 1)
    (parent : IsParent entries a b) : a < b := by
  obtain ⟨entry, mem, rfl⟩ := parent
  exact known _ mem

theorem lt_of_transGen (known : Known entries 1)
    (below : Relation.TransGen (IsParent entries) a b) : a < b := by
  induction below with
  | single parent => exact parent.lt known
  | tail _ parent ih => exact ih.trans (parent.lt known)

theorem terse_cons {entry : Entry N E} {first : Nat} : Terse (entry :: entries) first ↔
    (∀ place ∈ entry.parent, place.toNat ≠ first - 1) ∧ Terse entries (first + 1) := by
  unfold Terse
  rw [List.zipIdx_cons, List.forall_mem_cons]

theorem Entry.walked_inj {entry entry' : Entry N E} :
    entry.walked = entry'.walked ↔ entry = entry' := by
  obtain ⟨parent, value, edge⟩ := entry
  obtain ⟨parent', value', edge'⟩ := entry'
  simp [Entry.walked]

namespace Lineage

variable {left kept : List Nat}

theorem suffix (lineage : Lineage entries (left ++ a :: kept)) : Lineage entries (a :: kept) := by
  induction left with
  | nil => exact lineage
  | cons c left ih =>
    refine ih ?_
    rw [List.cons_append] at lineage
    generalize row : left ++ a :: kept = spine at lineage ⊢
    cases lineage with
    | origin => simp at row
    | child _ rest => exact rest

/-- A child of any place of a lineage has a lineage of its own. -/
theorem hang (lineage : Lineage entries (left ++ a :: kept)) (parent : IsParent entries a b) :
    Lineage entries (b :: a :: kept) :=
  .child parent lineage.suffix

theorem mem_iff (lineage : Lineage entries (a :: kept)) {x : Nat} :
    x ∈ a :: kept ↔ Relation.ReflTransGen (IsParent entries) x a := by
  -- a place has one parent at most, so what leads to it goes through the next place of the lineage
  generalize row : a :: kept = spine at lineage
  induction lineage generalizing a kept with
  | origin =>
    obtain ⟨rfl, rfl⟩ := List.cons.inj row
    rw [List.mem_singleton]
    constructor
    · rintro rfl
      exact .refl
    · intro reached
      rcases Relation.ReflTransGen.cases_tail reached with same | ⟨c, -, parent⟩
      · exact same.symm
      · exact absurd parent not_isParent_zero
  | child parent _ ih =>
    obtain ⟨rfl, rfl⟩ := List.cons.inj row
    rw [List.mem_cons, ih rfl]
    constructor
    · rintro (rfl | reached)
      · exact .refl
      · exact reached.tail parent
    · intro reached
      rcases Relation.ReflTransGen.cases_tail reached with same | ⟨c, reached, other⟩
      · exact .inl same.symm
      · exact .inr (parent.unique other ▸ reached)

/-- The arrows are nested if every parent is the entry before or one of its ancestors. -/
theorem nested_iff {last : Nat} {spine : List Nat} (lineage : Lineage entries (last :: spine))
    (inside : ∀ row ∈ rest.zipIdx (last + 1), row ∈ entries.zipIdx 1) :
    Nested (last :: spine) (parentage rest (last + 1)) ↔ ∀ row ∈ rest.zipIdx (last + 1),
      Relation.ReflTransGen (IsParent entries) (row.1.parentPlace row.2) (row.2 - 1) := by
  induction rest generalizing last spine with
  | nil =>
    rw [List.zipIdx_nil]
    exact iff_of_true (.nil _) (List.forall_mem_nil _)
  | cons entry rest ih =>
    rw [List.zipIdx_cons, List.forall_mem_cons] at inside ⊢
    rw [parentage, List.zipIdx_cons, List.map_cons, ← parentage, nested_cons_iff]
    have parent : IsParent entries (entry.parentPlace (last + 1)) (last + 1) :=
      ⟨entry, inside.1, rfl⟩
    constructor
    · rintro ⟨left, kept, split, later⟩
      have named : entry.parentPlace (last + 1) ∈ last :: spine := by simp [split]
      exact ⟨lineage.mem_iff.mp named, (ih ((split ▸ lineage).hang parent) inside.2).mp later⟩
    · rintro ⟨reached, later⟩
      obtain ⟨left, kept, split⟩ := List.append_of_mem (lineage.mem_iff.mpr reached)
      exact ⟨left, kept, split, (ih ((split ▸ lineage).hang parent) inside.2).mpr later⟩

end Lineage

/-- Entries are canonical if they stand in the order of a walk and no separator is redundant. -/
theorem canonical_iff (known : Known entries 1) :
    Canonical entries ↔ Nested [0] (parentage entries 1) ∧ Terse entries 1 := by
  rw [Lineage.nested_iff .origin fun _ mem => mem, Canonical, Terse, ← forall₂_and]
  refine forall₂_congr fun row mem => ?_
  unfold Entry.parentPlace
  cases row.1.parent with
  | none => simp [Relation.ReflTransGen.refl]
  | some place =>
    simp only [Option.mem_some_iff, forall_eq']
    rw [Relation.reflTransGen_iff_eq_or_transGen]
    constructor
    · exact fun below => ⟨.inr below, (lt_of_transGen known below).ne⟩
    · rintro ⟨same | below, differ⟩
      · exact absurd same.symm differ
      · exact below

end Ancestors

namespace Graph

variable {N E : Type} {g : Graph N E} {root : NodeId} {entries : List (Entry N E)}

/-! ## What the walk writes -/

theorem jump_eq {before : List NodeId} {last : NodeId} (ends : before.getLast? = some last)
    (e : EdgeId × Edge E) : jump before (stepAlong e) =
      if e.2.source = last then none else some (.ofNat (before.idxOf e.2.source)) := by
  simp only [jump, stepAlong, ends]

/-- A walk names the parent as the entry does, unless the entry names the node before it. -/
theorem jump_eq_iff {before : List NodeId} (nodup : before.Nodup) {e : EdgeId × Edge E}
    {parent : Option UInt32} (found : parentOf before parent = some e.2.source) :
    jump before (stepAlong e) = parent ↔ ∀ place ∈ parent, place.toNat ≠ before.length - 1 := by
  have source := mem_of_parentOf found
  have ends := List.getLast?_eq_some_getLast (List.ne_nil_of_mem source)
  generalize before.getLast (List.ne_nil_of_mem source) = last at ends
  rw [jump_eq ends]
  cases parent with
  | none =>
    obtain rfl : last = e.2.source := Option.some.inj (ends.symm.trans found)
    exact iff_of_true (if_pos rfl) (by simp)
  | some place =>
    have named : before.idxOf e.2.source = place.toNat :=
      (idxOf_eq_iff nodup source found).mpr rfl
    rw [List.getLast?_eq_getElem?] at ends
    have same : place.toNat = before.length - 1 ↔ e.2.source = last := by
      rw [← named, idxOf_eq_iff nodup source ends]
    simp only [Option.mem_some_iff, forall_eq', ne_eq, same, named, UInt32.ofNat_toNat]
    split
    · next redundant => simp [redundant]
    · next differ => simp [differ]

/-- The entries that describe the edges are written again if none names the entry before it. -/
theorem Describes.written_iff (wf : g.WellFormed) {before : List NodeId}
    {edges : List (EdgeId × Edge E)} (describes : g.Describes before entries edges)
    (nodup : (before ++ edges.map (·.2.target)).Nodup) :
    g.entriesOf before (edges.map stepAlong) = entries.map Entry.walked ↔
      Terse entries before.length := by
  induction describes with
  | nil => exact iff_of_true rfl (List.forall_mem_nil _)
  | @cons before entry entries e edges inside _ here payload parent _ ih =>
    have found : g.edge? e.1 = some e.2 := (edge?_eq_some_iff wf).mpr inside
    have later := ih (by simpa using nodup)
    rw [List.length_append, List.length_singleton] at later
    have first : Entry.mk (jump before (stepAlong e)) entry.value e.2.value = entry ↔
        ∀ place ∈ entry.parent, place.toNat ≠ before.length - 1 := by
      rw [← jump_eq_iff (List.nodup_append.mp nodup).1 parent, payload]
      exact ⟨congrArg Entry.parent, fun same => by rw [same]⟩
    rw [List.map_cons, entriesOf_cons found here, List.map_cons, List.cons.injEq,
      Entry.walked_inj, first, later, terse_cons]

theorem entriesOf_walked (wf : g.WellFormed) {edges : List (EdgeId × Edge E)}
    (inside : edges ⊆ g.edges) (before : List NodeId) :
    ∃ written : List (Entry N E),
      g.entriesOf before (edges.map stepAlong) = written.map Entry.walked := by
  induction edges generalizing before with
  | nil => exact ⟨[], rfl⟩
  | cons e edges ih =>
    rw [List.cons_subset] at inside
    obtain ⟨value, here⟩ := (mem_nodeIds_iff_value? wf).mp (target_mem wf inside.1)
    have found : g.edge? e.1 = some e.2 := (edge?_eq_some_iff wf).mpr inside.1
    obtain ⟨written, later⟩ := ih inside.2 (before ++ [e.2.target])
    refine ⟨⟨jump before (stepAlong e), value, e.2.value⟩ :: written, ?_⟩
    rw [List.map_cons, entriesOf_cons found here, later, List.map_cons]

/-! ## Places that do not fit -/

/-- A node at a place of more than 32 bits has no child but the node behind it. -/
def Far (g : Graph N E) : Prop :=
  ∀ e ∈ g.edges, 2 ^ 32 ≤ g.nodeIds.idxOf e.2.source →
    g.nodeIds.idxOf e.2.target = g.nodeIds.idxOf e.2.source + 1

theorem Grown.far {origin : N} (grown : g.Grown root origin entries) : g.Far := by
  intro e inside large
  have placed : (g.nodeIds.idxOf e.2.source, g.nodeIds.idxOf e.2.target, e.2.value) ∈
      g.placedEdges := List.mem_map_of_mem inside
  rw [grown.tells.edges] at placed
  obtain ⟨⟨entry, place⟩, mem, same⟩ := List.mem_map.mp placed
  have behind : 1 ≤ place := List.le_snd_of_mem_zipIdx mem
  rw [Prod.mk.injEq, Prod.mk.injEq] at same
  obtain ⟨source, target, -⟩ := same
  rw [← source] at large ⊢
  rw [← target]
  unfold Entry.parentPlace at large ⊢
  cases named : entry.parent with
  | none => exact (Nat.sub_add_cancel behind).symm
  | some parent =>
    simp only [named] at large
    exact absurd parent.toNat_lt (Nat.not_lt.mpr large)

/-- A walk does not jump to a place that does not fit: the only child there was visited. -/
theorem Far.place_lt (far : g.Far) {before behind : List NodeId}
    (all : g.nodeIds = before ++ behind) (nodup : before.Nodup) {e : EdgeId × Edge E} (inside : e ∈ g.edges)
    (source : e.2.source ∈ before) (new : e.2.target ∉ before) :
    before.idxOf e.2.source < 2 ^ 32 ∨ jump before (stepAlong e) = none := by
  have ends := List.getLast?_eq_some_getLast (List.ne_nil_of_mem source)
  generalize before.getLast (List.ne_nil_of_mem source) = last at ends
  rw [jump_eq ends]
  by_cases same : e.2.source = last
  · exact .inr (if_pos same)
  · refine .inl (Nat.lt_of_not_le fun large => ?_)
    have place := List.idxOf_lt_length_of_mem source
    rw [List.getLast?_eq_getElem?] at ends
    have short := (idxOf_eq_iff nodup source ends).not.mpr same
    have target := far e inside
    rw [all, List.idxOf_append_of_mem source, List.idxOf_append_of_notMem new] at target
    have visited := target large
    omega

/-- Of all orders of the edges that agree at every node, only the one that the entries describe is
written as these entries. -/
theorem Describes.eq_of_written (wf : g.WellFormed) (far : g.Far) {before : List NodeId}
    {edges edges' : List (EdgeId × Edge E)} (describes : g.Describes before entries edges)
    (follows : g.Follows before edges') (all : g.nodeIds = before ++ edges.map (·.2.target))
    (ordered : ∀ id, edges'.filter (·.2.source = id) = edges.filter (·.2.source = id))
    (written : g.entriesOf before (edges'.map stepAlong) = entries.map Entry.walked) :
    edges' = edges := by
  induction describes generalizing edges' with
  | nil =>
    cases follows with
    | nil => rfl
    | @cons _ e' _ _ _ _ _ => simpa using ordered e'.2.source
  | @cons before entry entries e edges _ _ _ _ parent _ ih =>
    cases follows with
    | nil => simpa using ordered e.2.source
    | @cons _ e' edges' inside source new later =>
      obtain ⟨value, here⟩ := (mem_nodeIds_iff_value? wf).mp (target_mem wf inside)
      have found : g.edge? e'.1 = some e'.2 := (edge?_eq_some_iff wf).mpr inside
      rw [List.map_cons, entriesOf_cons found here, List.map_cons, List.cons.injEq,
        Entry.walked_inj] at written
      have nodup : before.Nodup := (List.nodup_append.mp (all ▸ nodeIds_nodup wf)).1
      -- both edges leave the node that the entry names, and are the first to do so
      have same : e'.2.source = e.2.source := by
        have jumped := parentOf_jump (far.place_lt all nodup inside source new) source
        rw [← written.1] at parent
        exact Option.some.inj (jumped.symm.trans parent)
      obtain ⟨rfl, behind⟩ :=
        cons_of_ordered (fun e : EdgeId × Edge E => e.2.source) same ordered
      rw [ih later (by simpa using all) behind written.2]

/-! ## Trees written again -/

namespace Grown

variable {origin : N}

theorem nested_iff (grown : g.Grown root origin entries) :
    Nested [root] (g.edges.map arrow) ↔ Nested [0] (parentage entries 1) := by
  have wf := grown.wellFormed
  let place (id : NodeId) : Nat := g.nodeIds.idxOf id
  let node (place : Nat) : NodeId := (g.nodeIds[place]?).getD root
  have node_place : ∀ id ∈ g.nodeIds, node (place id) = id := by
    intro id live
    simp [node, place, List.getElem?_idxOf live]
  have placed : (g.edges.map arrow).map (Prod.map place place) = parentage entries 1 := by
    have both := congrArg (List.map fun row => (row.1, row.2.1)) grown.tells.edges
    rw [placedEdges, List.map_map, List.map_map] at both
    rw [List.map_map]
    exact both
  have origin : place root = 0 := by simp [place, grown.nodeIds]
  have restored : (parentage entries 1).map (Prod.map node node) = g.edges.map arrow := by
    rw [← placed, List.map_map, List.map_map]
    refine List.map_congr_left fun e inside => ?_
    exact Prod.ext (node_place _ (source_mem wf inside)) (node_place _ (target_mem wf inside))
  constructor
  · intro nested
    have moved := nested.map place
    rwa [placed, List.map_singleton, origin] at moved
  · intro nested
    have moved := nested.map node
    rwa [restored, List.map_singleton, ← origin, node_place root grown.rooted.live] at moved

/-- A walk from the root takes all edges. -/
theorem exists_walked (grown : g.Grown root origin entries) :
    ∃ edges, g.walkFrom root = ⟨none, none, root⟩ :: edges.map stepAlong ∧
      g.Follows [root] edges ∧ edges.Perm g.edges := by
  have wf := grown.wellFormed
  obtain ⟨edges, walked, follows⟩ := walkFrom_eq wf grown.rooted.live
  refine ⟨edges, walked, follows, follows.perm wf ?_⟩
  have all := grown.reachesAll
  rw [Graph.reachesAll, beq_iff_eq, walked, List.length_cons, List.length_map] at all
  rw [edgeCount_eq wf, grown.rooted.edges_length, ← all, Nat.add_sub_cancel]

section Walked

variable {edges : List (EdgeId × Edge E)}
  (walked : g.walkFrom root = ⟨none, none, root⟩ :: edges.map stepAlong)
  (perm : edges.Perm g.edges)

include walked perm

/-- The walk takes the edges in the order of their creation if the entries are in the order of a
walk. -/
theorem walked_eq_iff (grown : g.Grown root origin entries) :
    edges = g.edges ↔ Nested [0] (parentage entries 1) := by
  have wf := grown.wellFormed
  have nested := walkFrom_nested wf grown.rooted.live walked
  have targets : ([root] ++ (g.edges.map arrow).map Prod.snd).Nodup := by
    have nodup := nodeIds_nodup wf
    rw [grown.nodeIds] at nodup
    simpa [arrow, Function.comp_def] using nodup
  have targets' : ([root] ++ (edges.map arrow).map Prod.snd).Nodup :=
    (((perm.map arrow).map Prod.snd).append_left [root]).nodup_iff.mpr targets
  rw [← grown.nested_iff]
  constructor
  · rintro rfl
    exact nested
  · intro nested'
    exact nested.unique nested' targets' targets (walkFrom_ordered wf walked perm)

theorem written_iff (grown : g.Grown root origin entries) (follows : g.Follows [root] edges) :
    g.entriesOf [root] (edges.map stepAlong) = entries.map Entry.walked ↔
      edges = g.edges ∧ Terse entries 1 := by
  have wf := grown.wellFormed
  have ordered := walkFrom_ordered wf walked perm
  have nodup := nodeIds_nodup wf
  rw [grown.nodeIds] at nodup
  constructor
  · intro same
    obtain rfl := grown.describes.eq_of_written wf grown.far follows grown.nodeIds ordered same
    exact ⟨rfl, (grown.describes.written_iff wf nodup).mp same⟩
  · rintro ⟨rfl, terse⟩
    exact (grown.describes.written_iff wf nodup).mpr terse

end Walked

/-- What a walk writes of the tree, and that it is the entries exactly if they are canonical. -/
theorem entriesFrom_eq_iff (grown : g.Grown root origin entries) (known : Known entries 1) :
    ∃ written : List (Entry N E),
      g.entriesFrom root = ⟨none, origin, none⟩ :: written.map Entry.walked ∧
        (written = entries ↔ Canonical entries) := by
  obtain ⟨edges, walked, follows, perm⟩ := grown.exists_walked
  obtain ⟨written, writes⟩ :=
    entriesOf_walked (N := N) grown.wellFormed follows.subset [root]
  have inj : Function.Injective (Entry.walked (N := N) (E := E)) := fun _ _ => Entry.walked_inj.mp
  refine ⟨written, ?_, ?_⟩
  · rw [entriesFrom, walked, ← writes]
    simp [entriesOf, grown.value?_root, jump]
  · rw [← inj.list_map.eq_iff, ← writes, written_iff walked perm grown follows,
      walked_eq_iff walked perm grown, canonical_iff known]

/-- The walk does not see that the origin was given its payload again. -/
theorem entriesFrom_setNode (grown : g.Grown root origin entries) :
    (g.setNode root origin).entriesFrom root = g.entriesFrom root := by
  have wf := grown.wellFormed
  have refl : g.Copies g id := ⟨⟨by simp, by simp⟩, by simp⟩
  have copies := refl.setNode_self wf grown.value?_root
  exact copies.entriesFrom wf (wf.setNode root origin) grown.rooted.live

end Grown

end Graph

end Tangible
