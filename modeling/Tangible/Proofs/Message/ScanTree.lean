import Tangible.Proofs.Message.Grammar
import Tangible.Proofs.Message.Scan

/-!
# Trees grown while they are read

A graph grows with every entry that is read, while the reader of a whole list reads all entries
first. Both come to the same graph: a round of growing takes the arguments of one entry and finds
the parent that the entry names (`Plants`), so the arguments are those of a list of entries, and the
graph is the one that they grow (`growFrom_iff`).

With the messages that carry graphs, scans agree with the readers for every kind
(`Kind.scan?_eq_read?`).
-/

namespace Tangible

open Osc (Arg)

namespace Scan

variable {N E P : Type} {args rest : List Arg}

/-- What is read in a round of growing. -/
def round (parent : List NodeId → Scan NodeId) (entry : Scan (N × E)) (placed : List NodeId) :
    Scan (NodeId × N × E) := do
  let above ← parent placed
  let read ← entry
  pure (above, read)

/-- A round of growing reads an entry as it is written and finds the parent that the entry names. -/
def Plants (parent : List NodeId → Scan NodeId) (entry : Scan (N × E))
    (form : Option UInt32 → Prop) (write : Entry N E → List Arg) : Prop :=
  ∀ placed args above read rest,
    (round parent entry placed).reads args = some ((above, read), rest) ↔
      ∃ place, form place ∧ args = write ⟨place, read.1, read.2⟩ ++ rest ∧
        Graph.parentOf placed place = some above

section

variable {parent : List NodeId → Scan NodeId} {entry : Scan (N × E)}
  {form : Option UInt32 → Prop} {write : Entry N E → List Arg} {g h : Graph N E}

theorem reads_grow_succ (placed : List NodeId) (count : Nat) :
    (grow parent entry (count + 1) placed g).reads args =
      if args.isEmpty then some (g, args)
      else
        ((round parent entry placed).reads args).bind fun ((above, read), behind) =>
          ((g.createNode read.1).2.createEdge? above (g.createNode read.1).1 read.2).bind fun made =>
            (grow parent entry count (placed ++ [(g.createNode read.1).1]) made.2).reads behind := by
  rw [grow, isEmpty_bind]
  split
  · rfl
  · simp only [round, reads_bind, reads_lift]
    cases (parent placed).reads args with
    | none => rfl
    | some read =>
      simp only [Option.bind_some]
      cases entry.reads read.2 with
      | none => rfl
      | some read =>
        simp only [Option.bind_some, reads_pure]
        cases (g.createNode read.1.1).2.createEdge? _ (g.createNode read.1.1).1 read.1.2 <;> rfl

theorem grow_nil_iff (nonempty : ∀ e, write e ≠ []) {count : Nat} {placed : List NodeId} :
    (grow parent entry count placed g).reads [] = some (h, rest) ↔
      (∃ entries, (∀ e ∈ entries, form e.parent) ∧ [] = entries.flatMap write ∧
        Graph.grow placed entries g = some h) ∧ rest = [] := by
  have nothing : (grow parent entry count placed g).reads [] = some (g, []) := by
    cases count <;> rfl
  rw [nothing]
  constructor
  · rintro ⟨⟩
    exact ⟨⟨[], List.forall_mem_nil _, rfl, rfl⟩, rfl⟩
  · rintro ⟨⟨entries, -, empty, grown⟩, rfl⟩
    cases entries with
    | nil =>
      cases grown
      rfl
    | cons entry entries => exact absurd (List.append_eq_nil_iff.mp empty.symm).1 (nonempty entry)

/-- Growing while reading makes the same of the arguments as growing from the entries that they
tell. -/
theorem grow_iff (plants : Plants parent entry form write) (nonempty : ∀ e, write e ≠ [])
    {count : Nat} {placed : List NodeId} (enough : args.length ≤ count) :
    (grow parent entry count placed g).reads args = some (h, rest) ↔
      (∃ entries, (∀ e ∈ entries, form e.parent) ∧ args = entries.flatMap write ∧
        Graph.grow placed entries g = some h) ∧ rest = [] := by
  induction count generalizing args placed g with
  | zero =>
    obtain rfl := List.length_eq_zero_iff.mp (Nat.le_zero.mp enough)
    exact grow_nil_iff nonempty
  | succ count ih =>
    cases args with
    | nil => exact grow_nil_iff nonempty
    | cons arg args =>
      rw [reads_grow_succ, List.isEmpty_cons, if_neg Bool.false_ne_true, Option.bind_eq_some_iff]
      constructor
      · rintro ⟨⟨⟨above, read⟩, behind⟩, taken, made⟩
        obtain ⟨⟨edge, planted⟩, linked, made⟩ := Option.bind_eq_some_iff.mp made
        obtain ⟨place, formed, split, found⟩ := (plants ..).mp taken
        have shorter : behind.length ≤ count := by
          have taken := List.length_pos_iff.mpr (nonempty ⟨place, read.1, read.2⟩)
          rw [split, List.length_append] at enough
          omega
        obtain ⟨⟨entries, all, rfl, grown⟩, rfl⟩ := (ih shorter).mp made
        refine ⟨⟨⟨place, read.1, read.2⟩ :: entries, List.forall_mem_cons.mpr ⟨formed, all⟩, split,
          ?_⟩, rfl⟩
        rw [Graph.grow_eq_bind, found, Option.bind_some, Graph.bud, linked, Option.bind_some]
        exact grown
      · rintro ⟨⟨entries, all, split, grown⟩, rfl⟩
        cases entries with
        | nil => cases split
        | cons entry entries =>
          rw [List.forall_mem_cons] at all
          rw [Graph.grow_eq_bind] at grown
          obtain ⟨above, found, grown⟩ := Option.bind_eq_some_iff.mp grown
          obtain ⟨made, linked, grown⟩ := Option.bind_eq_some_iff.mp grown
          have shorter : (entries.flatMap write).length ≤ count := by
            have taken := List.length_pos_iff.mpr (nonempty entry)
            rw [split, List.flatMap_cons, List.length_append] at enough
            omega
          refine ⟨((above, entry.value, entry.edge), entries.flatMap write),
            (plants ..).mpr ⟨entry.parent, all.1, split, found⟩, ?_⟩
          exact Option.bind_eq_some_iff.mpr
            ⟨made, linked, (ih shorter).mpr ⟨⟨entries, all.2, rfl, grown⟩, rfl⟩⟩

theorem growFrom_iff (plants : Plants parent entry form write) (nonempty : ∀ e, write e ≠ [])
    {origin : N} : (growFrom origin parent entry).reads args = some (h, rest) ↔
      (∃ entries, (∀ e ∈ entries, form e.parent) ∧ args = entries.flatMap write ∧
        Graph.ofEntries? origin entries = some h) ∧ rest = [] := by
  have started : (growFrom origin parent entry).reads args =
      (grow parent entry args.length [((Graph.empty : Graph N E).createNode origin).1]
        ((Graph.empty : Graph N E).createNode origin).2).reads args := by
    rw [growFrom, reads_bind, reads_remaining, Option.bind_some]
  rw [started, grow_iff plants nonempty (Nat.le_refl _)]
  rfl

/-- Entries without separators, all of them in the same place. -/
theorem Inverts.plants {write : N × E → List Arg} (inverts : Inverts entry write)
    {place : Option UInt32} (found : ∀ placed, parent placed = lift (Graph.parentOf placed place)) :
    Plants parent entry (· = place) fun e => write (e.value, e.edge) := by
  intro placed args above read rest
  simp only [round, found, lift_bind_iff, inverts.bind, reads_pure_iff]
  constructor
  · rintro ⟨above, named, read, _, rfl, same, rfl⟩
    cases same
    exact ⟨place, rfl, rfl, named⟩
  · rintro ⟨_, rfl, rfl, named⟩
    exact ⟨above, named, read, rest, rfl, rfl, rfl⟩

/-- Entries behind separators with their places. -/
theorem Inverts.plants_named {write : N × E → List Arg} (inverts : Inverts entry write)
    (begins : ∀ x, ∃ arg tail, write x = arg :: tail ∧ arg ≠ .bool true) :
    Plants named entry (fun _ => True) fun e => jumpArgs e.parent ++ write (e.value, e.edge) := by
  intro placed args above read rest
  simp only [round, named, bind_assoc, separator_bind_iff, if_true, Bool.false_eq_true, if_false,
    inverts_uint.bind, lift_bind_iff, inverts.bind, reads_pure_iff]
  constructor
  · rintro (⟨_, rfl, place, _, rfl, above, found, read, _, rfl, same, rfl⟩ |
      ⟨-, above, found, read, _, rfl, same, rfl⟩)
    · cases same
      exact ⟨some place, trivial, rfl, found⟩
    · cases same
      exact ⟨none, trivial, rfl, found⟩
  · rintro ⟨_ | place, -, rfl, found⟩
    · obtain ⟨arg, tail, starts, other⟩ := begins read
      have different : (write read ++ rest).head? ≠ some (.bool true) := by simp [starts, other]
      exact .inr ⟨different, above, found, read, rest, rfl, rfl, rfl⟩
    · exact .inl ⟨_, rfl, place, _, rfl, above, found, read, rest, rfl, rfl, rfl⟩

end

/-- What is made of the graph that the entries tell. -/
theorem growFrom_bind_iff {parent : List NodeId → Scan NodeId} {entry : Scan (N × E)}
    {form : Option UInt32 → Prop} {write : Entry N E → List Arg}
    (plants : Plants parent entry form write) (nonempty : ∀ e, write e ≠ []) {α : Type}
    {make : Graph N E → Option α} {origin : N} {a : α} :
    (growFrom origin parent entry >>= fun g => lift (make g)).reads args = some (a, rest) ↔
      (∃ entries, (∀ e ∈ entries, form e.parent) ∧ args = entries.flatMap write ∧
        (Graph.ofEntries? origin entries).bind make = some a) ∧ rest = [] := by
  rw [reads_bind, Option.bind_eq_some_iff, Prod.exists]
  simp only [growFrom_iff plants nonempty, reads_lift, Option.map_eq_some_iff, Prod.mk.injEq,
    Option.bind_eq_some_iff]
  constructor
  · rintro ⟨g, _, ⟨⟨entries, formed, rfl, grown⟩, rfl⟩, _, made, rfl, rfl⟩
    exact ⟨⟨entries, formed, rfl, g, grown, made⟩, rfl⟩
  · rintro ⟨⟨entries, formed, rfl, g, grown, made⟩, rfl⟩
    exact ⟨g, [], ⟨⟨entries, formed, rfl, grown⟩, rfl⟩, a, made, rfl, rfl⟩

/-! ## Skeletons -/

theorem Inverts.joint {point : Scan P} {write : P → List Arg} (inverts : Inverts point write) :
    Inverts (joint point) fun read => write read.1 := by
  intro args read rest
  simp only [Scan.joint, inverts.bind, reads_pure_iff]
  constructor
  · rintro ⟨p, _, rfl, rfl, rfl⟩
    rfl
  · rintro rfl
    exact ⟨read.1, rest, rfl, rfl, rfl⟩

theorem Inverts.agrees_skeleton [Joint P] [ExactJoint P] {point : Scan P}
    (inverts : Inverts point Joint.args)
    (begins : ∀ p : P, ∃ arg tail, Joint.args p = arg :: tail ∧ arg ≠ .bool true) :
    Agrees (skeleton point) Skeleton.ofArgs? := by
  have plants := inverts.joint.plants_named fun read => begins read.1
  have nonempty (e : Entry P Unit) : jumpArgs e.parent ++ Joint.args e.value ≠ [] := by
    simp [LawfulJoint.args_ne_nil]
  intro args s rest
  simp only [skeleton, inverts_uint.bind, isEmpty_bind]
  constructor
  · rintro ⟨session, behind, rfl, read⟩
    cases behind with
    | nil =>
      cases read
      exact ⟨Skeleton.ofArgs?_bare session, rfl⟩
    | cons arg behind =>
      rw [List.isEmpty_cons, if_neg Bool.false_ne_true, inverts.bind] at read
      obtain ⟨origin, _, split, read⟩ := read
      obtain ⟨⟨entries, -, rfl, taken⟩, rfl⟩ := (growFrom_bind_iff plants nonempty).mp read
      rw [split]
      exact ⟨Skeleton.ofArgs?_treeArgs_eq.trans taken, rfl⟩
  · rintro ⟨read, rfl⟩
    rcases Skeleton.exists_treeArgs read with ⟨session, rfl⟩ | ⟨session, origin, entries, rfl⟩
    · rw [Skeleton.ofArgs?_bare] at read
      cases read
      exact ⟨session, [], rfl, rfl⟩
    · rw [Skeleton.ofArgs?_treeArgs_eq] at read
      refine ⟨session, Joint.args origin ++ entries.flatMap fun entry =>
        jumpArgs entry.parent ++ Joint.args entry.value, rfl, ?_⟩
      obtain ⟨arg, tail, starts, -⟩ := begins origin
      rw [if_neg (by simp [starts]), inverts.bind]
      exact ⟨origin, _, rfl, (growFrom_bind_iff plants nonempty).mpr
        ⟨⟨entries, fun _ _ => trivial, rfl, read⟩, rfl⟩⟩

/-! ## Links -/

theorem inverts_link : Inverts link fun read => Links.linkArgs read.1 (some read.2) := by
  intro args read rest
  simp only [link, inverts_uint.bind, reads_pure_iff]
  constructor
  · rintro ⟨session, _, rfl, ports, _, rfl, rfl, rfl⟩
    simp [Links.linkArgs, Run.ofIds, Ports.packed, Ports.ofPacked, joinHalves_halves]
  · rintro rfl
    refine ⟨read.1, _, rfl, read.2.packed, _, rfl, ?_, rfl⟩
    simp

/-- The parents that the entries of a shape can name. -/
def parentForm : Topology → Option UInt32 → Prop
  | .star, parent => parent = some 0
  | .chain, parent => parent = none
  | .trunkTree, _ => True

/-- The arguments of an entry. Only trees have separators. -/
def row : Topology → Entry UInt32 Ports → List Arg
  | .star, e | .chain, e => Links.linkArgs e.value (some e.edge)
  | .trunkTree, e => jumpArgs e.parent ++ Links.linkArgs e.value (some e.edge)

theorem plants_link (shape : Topology) :
    Plants (parentOf shape) link (parentForm shape) (row shape) := by
  cases shape with
  | star =>
    refine inverts_link.plants fun placed => ?_
    cases placed <;> rfl
  | chain => exact inverts_link.plants fun _ => rfl
  | trunkTree =>
    exact inverts_link.plants_named fun read => ⟨_, _, rfl, nofun⟩

theorem row_ne_nil (shape : Topology) (e : Entry UInt32 Ports) : row shape e ≠ [] := by
  cases shape <;> simp [row, Links.linkArgs, Run.ofIds]

theorem links_of_flatEntries? {parent : Option UInt32} {entries : List (Entry UInt32 Ports)}
    (read : Links.flatEntries? parent args = some entries) :
    (∀ e ∈ entries, e.parent = parent) ∧
      args = entries.flatMap fun e => Links.linkArgs e.value (some e.edge) := by
  fun_induction Links.flatEntries? parent args generalizing entries with
  | case1 =>
    cases read
    exact ⟨nofun, rfl⟩
  | case2 session ports rest ih =>
    obtain ⟨entries, behind, rfl⟩ := Option.map_eq_some_iff.mp read
    obtain ⟨all, rfl⟩ := ih behind
    refine ⟨List.forall_mem_cons.mpr ⟨rfl, all⟩, ?_⟩
    rw [List.flatMap_cons, Links.linkArgs_ofPacked]
    rfl
  | case3 => cases read

theorem entries?_iff {shape : Topology} {entries : List (Entry UInt32 Ports)} :
    Links.entries? shape args = some entries ↔
      (∀ e ∈ entries, parentForm shape e.parent) ∧ args = entries.flatMap (row shape) := by
  cases shape with
  | star => exact ⟨links_of_flatEntries?, fun ⟨all, split⟩ => split ▸ Links.flatEntries?_args all⟩
  | chain => exact ⟨links_of_flatEntries?, fun ⟨all, split⟩ => split ▸ Links.flatEntries?_args all⟩
  | trunkTree =>
    exact ⟨fun read => ⟨fun _ _ => trivial, (Links.rows_of_treeEntries? read).symm⟩,
      fun ⟨_, split⟩ => split ▸ Links.treeEntries?_args entries⟩

/-- An origin without links is stored as no graph is. -/
theorem ofArgs?_header (shape : Topology) (session : UInt32) (physical : Bool) :
    (Links.ofArgs? [.ofId session, .bool physical] : Option (Links shape)) =
      (Links.withGraph { sessionId := session, physical } .empty).toOption := by
  rw [Links.ofArgs?_cons]
  cases shape <;> rfl

theorem agrees_links (shape : Topology) :
    Agrees (links : Scan (Links shape)) Links.ofArgs? := by
  intro args l rest
  simp only [links, inverts_uint.bind, inverts_bool.bind, linkGraph, bind_assoc, isEmpty_bind]
  constructor
  · rintro ⟨session, _, rfl, physical, behind, rfl, read⟩
    cases behind with
    | nil =>
      rw [List.isEmpty_nil, if_pos rfl, pure_bind, reads_lift, Option.map_eq_some_iff] at read
      obtain ⟨l, taken, same⟩ := read
      cases same
      exact ⟨(ofArgs?_header ..).trans taken, rfl⟩
    | cons arg behind =>
      rw [List.isEmpty_cons, if_neg Bool.false_ne_true,
        growFrom_bind_iff (plants_link shape) (row_ne_nil shape)] at read
      obtain ⟨⟨entries, formed, split, taken⟩, rfl⟩ := read
      refine ⟨?_, rfl⟩
      show Links.ofArgs? (.ofId session :: .bool physical :: arg :: behind) = _
      rw [Links.ofArgs?_cons, entries?_iff.mpr ⟨formed, split⟩, Option.bind_some, taken]
  · rintro ⟨read, rfl⟩
    rw [Links.ofArgs?.eq_def] at read
    split at read
    · next session physical behind =>
      refine ⟨session.toUInt32, _, int_cons .., physical, behind, rfl, ?_⟩
      cases behind with
      | nil =>
        have header := ofArgs?_header shape session.toUInt32 physical
        rw [Arg.ofId_toUInt32] at header
        rw [List.isEmpty_nil, if_pos rfl, pure_bind, reads_lift, header.symm.trans read]
        rfl
      | cons arg behind =>
        obtain ⟨entries, found, taken⟩ := Option.bind_eq_some_iff.mp read
        rw [List.isEmpty_cons, if_neg Bool.false_ne_true,
          growFrom_bind_iff (plants_link shape) (row_ne_nil shape)]
        obtain ⟨formed, split⟩ := entries?_iff.mp found
        exact ⟨⟨entries, formed, split, taken⟩, rfl⟩
    · cases read

end Scan

/-! ## All kinds -/

open Scan in
/-- Reading the arguments of a message one after the other is the same as reading them as a whole. -/
theorem Kind.scan?_eq_read? (kind : Kind) (args : List Arg) : kind.scan? args = kind.read? args := by
  have ids : Agrees restUints Run.ids? :=
    exhausts_restUints.agrees Run.ids?_ofIds Run.ofIds_of_ids?
  have outline : Agrees outline Outline.ofArgs? :=
    exhausts_outline.agrees Outline.ofArgs?_args Outline.args_of_ofArgs?
  cases kind with
  | pointer =>
    exact Agrees.map (exhausts_pointer.agrees Pointer.ofArgs?_args Pointer.args_of_ofArgs?) _ args
  | token =>
    exact Agrees.map (exhausts_token.agrees Token.ofArgs?_args Token.args_of_ofArgs?) _ args
  | bounds =>
    exact Agrees.map (exhausts_bounds.agrees Bounds.ofArgs?_args Bounds.args_of_ofArgs?) _ args
  | symbol =>
    exact Agrees.map (exhausts_symbol.agrees Symbol.ofArgs?_args Symbol.args_of_ofArgs?) _ args
  | pointer3 =>
    exact Agrees.map (exhausts_pointer3.agrees Pointer3.ofArgs?_args Pointer3.args_of_ofArgs?) _ args
  | token3 =>
    exact Agrees.map (exhausts_token3.agrees Token3.ofArgs?_args Token3.args_of_ofArgs?) _ args
  | bounds3 =>
    exact Agrees.map (exhausts_bounds3.agrees Bounds3.ofArgs?_args Bounds3.args_of_ofArgs?) _ args
  | control =>
    exact Agrees.map (exhausts_control.agrees Control.ofArgs?_args Control.args_of_ofArgs?) _ args
  | data =>
    exact Agrees.map (exhausts_data.agrees Data.ofArgs?_args Data.args_of_ofArgs?) _ args
  | signal =>
    exact Agrees.map (exhausts_signal.agrees Signal.ofArgs?_args Signal.args_of_ofArgs?) _ args
  | raw =>
    exact Agrees.map (exhausts_raw.agrees RawSamples.ofArgs?_args RawSamples.args_of_ofArgs?) _ args
  | convexHull => exact outline.map _ args
  | outerContour => exact outline.map _ args
  | innerContour => exact agrees_innerContours.map _ args
  | skeleton2 =>
    exact Agrees.map (inverts_point2.agrees_skeleton fun _ => ⟨_, _, rfl, nofun⟩) _ args
  | skeleton3 =>
    exact Agrees.map (inverts_point3.agrees_skeleton fun _ => ⟨_, _, rfl, nofun⟩) _ args
  | skeletonVolume =>
    exact Agrees.map (exhausts_radii.agrees Radii.ofArgs?_args Radii.args_of_ofArgs?) _ args
  | area => exact Agrees.map (exhausts_area.agrees Area.ofArgs?_args Area.args_of_ofArgs?) _ args
  | container =>
    exact Agrees.map (exhausts_container.agrees Container.ofArgs?_args Container.args_of_ofArgs?) _ args
  | linkStar => exact (agrees_links .star).map _ args
  | linkChain => exact (agrees_links .chain).map _ args
  | linkTree => exact (agrees_links .trunkTree).map _ args
  | frame => exact agrees_frame.map _ args
  | alive => exact ids.map _ args
  | aliveAssociation => exact ids.map _ args
  | generic => rfl

end Tangible
