import Tangible.Registry
import Tangible.Proofs.Message.Link
import Tangible.Proofs.Osc.RoundTrip

/-!
# Messages read back

`Message.Reachable` is every message that the operations make, and `Message.Carried` says what else
a message has to be like for the wire to carry it: texts without NUL, blobs whose length is not a
multiple of four, contours that are not one empty contour, and for a generic message an address
that no kind has. The default registry reads such a message back from what is sent of it
(`Registry.decode?_toOsc`), equal up to the handles of a graph (`Message.Same`).
-/

namespace Tangible

open Osc (Arg)

/-! ## The default registry -/

theorem Kind.mem_catalog {kind : Kind} {address : String} (named : kind.address? = some address) :
    kind ∈ catalog := by
  cases kind with
  | generic => simp [address?] at named
  | _ => decide

namespace Registry

theorem lookup_insert (address : String) (binding : Binding) (bindings : List (String × Binding))
    (a : String) :
    (insert address binding bindings).lookup a =
      if a = address then some binding else bindings.lookup a := by
  fun_induction insert address binding bindings with
  | case1 => rw [lookup_cons_eq_ite]
  | case2 other old rest before => rw [lookup_cons_eq_ite]
  | case3 old rest =>
    rw [lookup_cons_eq_ite, lookup_cons_eq_ite]
    split <;> rfl
  | case4 other old rest _ differ ih =>
    rw [lookup_cons_eq_ite, lookup_cons_eq_ite, ih]
    by_cases same : a = other
    · subst same
      simp [Ne.symm differ]
    · simp [same]

theorem lookup_bindKind (r : Registry) (kind : Kind) (a : String) :
    (r.bindKind kind).lookup a =
      if kind.address? = some a then some { convertor := kind.convertor } else r.lookup a := by
  cases named : kind.address? with
  | none => simp [bindKind, named]
  | some address =>
    rw [bindKind, named]
    simp only [bind, bindConvertor, lookup, lookup_insert, Option.some.injEq, eq_comm]

theorem lookup_foldl_of_absent {kinds : List Kind} {a : String} (r : Registry)
    (absent : ∀ k ∈ kinds, k.address? ≠ some a) :
    (kinds.foldl bindKind r).lookup a = r.lookup a := by
  induction kinds generalizing r with
  | nil => rfl
  | cons k kinds ih =>
    rw [List.foldl_cons, ih _ fun k' mem => absent k' (List.mem_cons_of_mem _ mem),
      lookup_bindKind, if_neg (absent k (List.mem_cons_self ..))]

theorem lookup_foldl_of_mem {kinds : List Kind} {kind : Kind} {a : String} (r : Registry)
    (mem : kind ∈ kinds) (named : kind.address? = some a)
    (unique : ∀ k ∈ kinds, k.address? = some a → k = kind) :
    (kinds.foldl bindKind r).lookup a = some { convertor := kind.convertor } := by
  induction kinds generalizing r with
  | nil => simp at mem
  | cons k kinds ih =>
    rw [List.foldl_cons]
    by_cases later : kind ∈ kinds
    · exact ih _ later fun k' mem' => unique k' (List.mem_cons_of_mem _ mem')
    · obtain rfl : kind = k := by
        rcases List.mem_cons.mp mem with here | behind
        · exact here
        · exact absurd behind later
      rw [lookup_foldl_of_absent, lookup_bindKind, if_pos named]
      intro k' mem' named'
      exact later (unique k' (List.mem_cons_of_mem _ mem') named' ▸ mem')

/-- No two kinds share an address. -/
theorem address?_injective :
    ∀ k ∈ Kind.catalog, ∀ k' ∈ Kind.catalog, k'.address? = k.address? → k' = k := by
  decide

theorem lookup_defaults {kind : Kind} {address : String} (named : kind.address? = some address) :
    defaults.lookup address = some { convertor := kind.convertor } := by
  have mem := Kind.mem_catalog named
  exact lookup_foldl_of_mem _ mem named fun k mem' named' =>
    address?_injective kind mem k mem' (named'.trans named.symm)

theorem lookup_defaults_unknown {address : String} (unknown : ∀ kind, Kind.address? kind ≠ some address) :
    defaults.lookup address = none :=
  lookup_foldl_of_absent _ fun k _ => unknown k

/-- A message of the catalog is read as its kind. -/
theorem decode?_defaults {kind : Kind} {m : Osc.Message} (named : kind.address? = some m.address)
    (acceptUnknown : Bool) : defaults.decode? m acceptUnknown = kind.read? m.args := by
  have bound := lookup_defaults named
  simp [decode?, isEnabled, bound, Kind.convertor]

/-- Any other message is kept as it is, if it is kept. -/
theorem decode?_defaults_unknown {m : Osc.Message}
    (unknown : ∀ kind, Kind.address? kind ≠ some m.address) (acceptUnknown : Bool) :
    defaults.decode? m acceptUnknown = if acceptUnknown then some (.generic m) else none := by
  have unbound := lookup_defaults_unknown unknown
  simp [decode?, isEnabled, unbound]

end Registry

/-! ## Messages -/

namespace Message

/-- The messages that the operations make. Only graphs are kept in order by their operations; all
other messages are what their fields say. -/
def Reachable : Message → Prop
  | .skeleton2 s => s.Reachable
  | .skeleton3 s => s.Reachable
  | .linkStar l => l.Reachable
  | .linkChain l => l.Reachable
  | .linkTree l => l.Reachable
  | _ => True

/-- Equal up to the handles of a graph. -/
inductive Same : Message → Message → Prop where
  | refl (m : Message) : Same m m
  | skeleton2 {s s' : Skeleton Point2} : s.Same s' → Same (.skeleton2 s) (.skeleton2 s')
  | skeleton3 {s s' : Skeleton Point3} : s.Same s' → Same (.skeleton3 s) (.skeleton3 s')
  | linkStar {l l' : Links .star} : l.Same l' → Same (.linkStar l) (.linkStar l')
  | linkChain {l l' : Links .chain} : l.Same l' → Same (.linkChain l) (.linkChain l')
  | linkTree {l l' : Links .trunkTree} : l.Same l' → Same (.linkTree l) (.linkTree l')

theorem Same.kind {m m' : Message} (same : m.Same m') : m'.kind = m.kind := by
  cases same <;> rfl

theorem Same.eq_frame {frame : Frame} {m : Message} (same : Same (.frame frame) m) :
    m = .frame frame := by
  cases same
  rfl

theorem Same.eq_alive {ids : List UInt32} {m : Message} (same : Same (.alive ids) m) :
    m = .alive ids := by
  cases same
  rfl

/-- What the wire carries unchanged. -/
structure Carried (m : Message) : Prop where
  args : ∀ arg ∈ m.args, arg.Portable
  contours : ∀ i, m = .innerContour i → i.contours ≠ [[]]
  address : ∀ g, m = .generic g → '\x00' ∉ g.address.toList ∧ g.address.toList.head? = some '/' ∧
    ∀ kind, Kind.address? kind ≠ some g.address

theorem address_of_kind {m : Message} {address : String} (named : m.kind.address? = some address) :
    m.address = address := by
  cases m with
  | generic g => simp [kind, Kind.address?] at named
  | _ => exact Option.some.inj named

theorem address?_toOsc {m : Message} (known : m.kind ≠ .generic) :
    m.kind.address? = some m.toOsc.address := by
  cases m with
  | generic g => exact absurd rfl known
  | _ => rfl

theorem known_of_address {m : Message} {address : String} (named : m.kind.address? = some address) :
    m.kind ≠ .generic := by
  intro generic
  simp [generic, Kind.address?] at named

/-- The addresses of the catalog are fit for the wire. -/
theorem address_plain : ∀ k ∈ Kind.catalog, ∀ address ∈ k.address?,
    '\x00' ∉ address.toList ∧ address.toList.head? = some '/' := by
  decide

theorem clean {m : Message} {address : String} (named : m.kind.address? = some address) :
    '\x00' ∉ m.toOsc.address.toList ∧ m.toOsc.address.toList.head? = some '/' := by
  rw [toOsc, address_of_kind named]
  exact address_plain _ (Kind.mem_catalog named) address named

theorem Carried.portable {m : Message} (carried : m.Carried) : m.toOsc.Portable := by
  have plain : '\x00' ∉ m.toOsc.address.toList ∧ m.toOsc.address.toList.head? = some '/' := by
    cases named : m.kind.address? with
    | none =>
      cases m with
      | generic g => exact ⟨(carried.address g rfl).1, (carried.address g rfl).2.1⟩
      | _ => simp [kind, Kind.address?] at named
    | some address => exact m.clean named
  exact ⟨plain.1, plain.2, carried.args⟩

theorem frame_args {frame : Frame} (clean : '\x00' ∉ frame.application.toList) :
    ∀ arg ∈ (Message.frame frame).args, arg.Portable ∧ arg.Short := by
  simp only [args, Frame.args, Run.ofIds]
  split <;> simp [Osc.Arg.ofId, Osc.Arg.Portable, Osc.Arg.Short, clean]

theorem alive_args (ids : List UInt32) :
    ∀ arg ∈ (Message.alive ids).args, arg.Portable ∧ arg.Short := by
  intro arg mem
  obtain ⟨id, _, rfl⟩ := List.mem_map.mp mem
  exact ⟨trivial, trivial⟩

theorem Carried.frame {frame : Frame} (clean : '\x00' ∉ frame.application.toList) :
    (Message.frame frame).Carried :=
  ⟨fun arg mem => (frame_args clean arg mem).1, by simp, by simp⟩

theorem Carried.application_clean {frame : Frame} (carried : (Message.frame frame).Carried) :
    '\x00' ∉ frame.application.toList := by
  by_cases described : frame.isExtended
  · refine carried.args (.string frame.application) ?_
    simp [Message.args, Frame.args, described]
  · have none : frame.application = "" := by
      simp only [Frame.isExtended, Bool.or_eq_true, decide_eq_true_eq, not_or, Decidable.not_not]
        at described
      exact described.1.1.1
    simp [none]

theorem Carried.alive (ids : List UInt32) : (Message.alive ids).Carried :=
  ⟨fun arg mem => (alive_args ids arg mem).1, by simp, by simp⟩

theorem kind_of_read? {kind : Kind} {args : List Osc.Arg} {m : Message}
    (read : kind.read? args = some m) : m.kind = kind := by
  cases kind <;> simp only [Kind.read?, Option.map_eq_some_iff, reduceCtorEq] at read <;>
    obtain ⟨_, _, rfl⟩ := read <;> rfl

/-- Every kind of the catalog reads back what it writes. -/
theorem read?_args {m : Message} (reachable : m.Reachable) (carried : m.Carried)
    (small : m.args.length ≤ 2 ^ 32) (notGeneric : m.kind ≠ .generic) :
    ∃ m', m.kind.read? m.args = some m' ∧ m.Same m' := by
  cases m with
  | generic g => exact absurd rfl notGeneric
  | innerContour i =>
    refine ⟨_, ?_, .refl _⟩
    simp [kind, args, Kind.read?, InnerContours.ofArgs?_args (carried.contours i rfl)]
  | skeleton2 s =>
    have valid := Skeleton.Reachable.valid reachable
    obtain ⟨s', read, same⟩ := Skeleton.ofArgs?_args valid (Nat.le_trans (Skeleton.nodeCount_le_args valid) small)
    exact ⟨_, congrArg (Option.map Message.skeleton2) read, .skeleton2 same⟩
  | skeleton3 s =>
    have valid := Skeleton.Reachable.valid reachable
    obtain ⟨s', read, same⟩ := Skeleton.ofArgs?_args valid (Nat.le_trans (Skeleton.nodeCount_le_args valid) small)
    exact ⟨_, congrArg (Option.map Message.skeleton3) read, .skeleton3 same⟩
  | linkStar l =>
    have valid := Links.Reachable.valid reachable
    obtain ⟨l', read, same⟩ := Links.ofArgs?_args valid (Nat.le_trans (Links.nodeCount_le_args valid) small)
    exact ⟨_, congrArg (Option.map Message.linkStar) read, .linkStar same⟩
  | linkChain l =>
    have valid := Links.Reachable.valid reachable
    obtain ⟨l', read, same⟩ := Links.ofArgs?_args valid (Nat.le_trans (Links.nodeCount_le_args valid) small)
    exact ⟨_, congrArg (Option.map Message.linkChain) read, .linkChain same⟩
  | linkTree l =>
    have valid := Links.Reachable.valid reachable
    obtain ⟨l', read, same⟩ := Links.ofArgs?_args valid (Nat.le_trans (Links.nodeCount_le_args valid) small)
    exact ⟨_, congrArg (Option.map Message.linkTree) read, .linkTree same⟩
  | _ =>
    refine ⟨_, ?_, .refl _⟩
    simp [kind, args, Kind.read?]

end Message

/-- A message at the address of a kind is read as a message of this kind, or not at all. -/
theorem Registry.kind_of_address {kind : Kind} {o : Osc.Message} {m : Message}
    {acceptUnknown : Bool} (named : kind.address? = some o.address)
    (read : defaults.decode? o acceptUnknown = some m) : m.kind = kind := by
  rw [decode?_defaults named] at read
  exact Message.kind_of_read? read

theorem Registry.kind_of_decode? {m m' : Message} {address : String} {acceptUnknown : Bool}
    (named : m.kind.address? = some address)
    (read : defaults.decode? m.toOsc acceptUnknown = some m') : m'.kind = m.kind :=
  kind_of_address (m.address?_toOsc (m.known_of_address named)) read

/-- The default registry reads a message back from what is sent of it. A generic message has to be
wanted. -/
theorem Registry.decode?_toOsc {m : Message} (reachable : m.Reachable) (carried : m.Carried)
    (small : m.args.length ≤ 2 ^ 32) {acceptUnknown : Bool}
    (wanted : m.kind = .generic → acceptUnknown = true) :
    ∃ m', defaults.decode? m.toOsc acceptUnknown = some m' ∧ m.Same m' := by
  cases named : m.kind.address? with
  | none =>
    cases m with
    | generic g =>
      have unknown := (carried.address g rfl).2.2
      refine ⟨.generic g, ?_, .refl _⟩
      exact (decode?_defaults_unknown unknown acceptUnknown).trans (if_pos (wanted rfl))
    | _ => simp [Message.kind, Kind.address?] at named
  | some address =>
    have known := m.known_of_address named
    rw [decode?_defaults (m.address?_toOsc known)]
    exact m.read?_args reachable carried small known

end Tangible
