import Mathlib
import Tangible.Proofs.Network.Assembly
import Tangible.Proofs.Network.Serial

/-!
# The order of accepted frames

Numbered bundles reach a client late, twice or not at all, and unnumbered ones between them. The
client accepts a numbered bundle if its position is greater than all positions that came before it,
and every unnumbered one (`leading`). The positions are not on the wire: the client compares frame
ids with the last one that it accepted, which is the id of the greatest position
(`Assembly.feedAll_arrival`), and this comes to the same while all positions lie within half a round
(`isNewer_serial`).
-/

namespace Tangible

/-- A bundle that reaches a client, with its position among the numbered ones. -/
structure Arrival where
  position : Option Nat
  bundle : Bundle

namespace Arrival

/-- A frame opens the bundle and an alive list closes it. The id of the frame tells the position,
and it is zero without one. -/
def Complete (start : UInt32) (a : Arrival) : Prop :=
  ∃ frame body ids, a.bundle.messages = .frame frame :: body ++ [.alive ids] ∧
    frame.id = a.position.elim 0 (serial start) ∧ ∀ m ∈ body, m.isFrame = false ∧ m.isAlive = false

/-- All positions lie within half a round. -/
def Near (a : Arrival) : Prop := ∀ p ∈ a.position, p ≤ 2 ^ 31 - 2

/-- Whether the position is greater than those that came before. -/
def leads (before : List Nat) (a : Arrival) : Bool :=
  a.position.all fun p => before.all (· < p)

end Arrival

/-- The arrivals that lead when they come, behind those with the positions of `before`. -/
def leading (before : List Nat) : List Arrival → List Arrival
  | [] => []
  | a :: rest =>
    if a.leads before then a :: leading (before ++ a.position.toList) rest
    else leading (before ++ a.position.toList) rest

/-- The id of the greatest position, and zero before the first one. -/
def greatestId (start : UInt32) (positions : List Nat) : UInt32 :=
  positions.max?.elim 0 (serial start)

variable {start : UInt32}

theorem greatestId_concat (before : List Nat) (p : Nat) :
    greatestId start (before ++ [p]) =
      if before.all (· < p) then serial start p else greatestId start before := by
  unfold greatestId
  split
  · next all =>
    have greatest : (before ++ [p]).max? = some p := by
      rw [List.max?_eq_some_iff]
      refine ⟨by simp, fun q mem => ?_⟩
      rcases List.mem_append.mp mem with old | here
      · have := List.all_eq_true.mp all q old
        simp only [decide_eq_true_eq] at this
        omega
      · exact Nat.le_of_eq (List.mem_singleton.mp here)
    rw [greatest, Option.elim_some]
  · next late =>
    obtain ⟨q, old, above⟩ : ∃ q ∈ before, p ≤ q := by simpa using late
    cases greatest : before.max? with
    | none =>
      rw [List.max?_eq_none_iff.mp greatest] at old
      simp at old
    | some m =>
      obtain ⟨mem, bound⟩ := List.max?_eq_some_iff.mp greatest
      have still : (before ++ [p]).max? = some m := by
        rw [List.max?_eq_some_iff]
        refine ⟨List.mem_append_left _ mem, fun other mem => ?_⟩
        rcases List.mem_append.mp mem with old | here
        · exact bound other old
        · rw [List.mem_singleton.mp here]
          exact Nat.le_trans above (bound q old)
      rw [still]

/-- The positions that lead grow. -/
theorem leading_ascends (before : List Nat) (arrivals : List Arrival) :
    ((leading before arrivals).filterMap Arrival.position).Pairwise (· < ·) ∧
      ∀ p ∈ (leading before arrivals).filterMap Arrival.position, ∀ q ∈ before, q < p := by
  induction arrivals generalizing before with
  | nil => simp [leading]
  | cons a rest ih =>
    obtain ⟨ascends, above⟩ := ih (before ++ a.position.toList)
    have above' : ∀ p ∈ (leading (before ++ a.position.toList) rest).filterMap Arrival.position,
        ∀ q ∈ before, q < p :=
      fun p mem q old => above p mem q (List.mem_append_left _ old)
    unfold leading
    split
    · next leads =>
      cases placed : a.position with
      | none =>
        rw [List.filterMap_cons_none placed, ← placed]
        exact ⟨ascends, above'⟩
      | some p =>
        rw [List.filterMap_cons_some placed, List.pairwise_cons, List.forall_mem_cons, ← placed]
        refine ⟨⟨fun p' mem => above p' mem p ?_, ascends⟩, ?_, above'⟩
        · simp [placed]
        · simpa [Arrival.leads, placed] using leads
    · exact ⟨ascends, above'⟩

namespace Assembly

variable {a : Assembly}

theorem isNewer_greatest (numbered : start ≠ 0) {before : List Nat} {p : Nat}
    (near : ∀ q ∈ before, q ≤ 2 ^ 31 - 2) (here : p ≤ 2 ^ 31 - 2) :
    isNewer (serial start p) (greatestId start before) = before.all (· < p) := by
  unfold greatestId
  cases greatest : before.max? with
  | none =>
    rw [List.max?_eq_none_iff.mp greatest]
    simp [isNewer]
  | some q =>
    obtain ⟨mem, bound⟩ := List.max?_eq_some_iff.mp greatest
    rw [Option.elim_some, isNewer_serial numbered here (near q mem), Bool.eq_iff_iff,
      decide_eq_true_eq, List.all_eq_true]
    constructor
    · intro ahead other old
      have := bound other old
      simpa using by omega
    · intro all
      simpa using all q mem

/-- A numbered bundle is accepted if it leads, and then its id is the one to compare with. -/
theorem feedAll_arrival (numbered : start ≠ 0) {before : List Nat}
    (last : a.lastFrameId = greatestId start before) (past : ∀ q ∈ before, q ≤ 2 ^ 31 - 2)
    {arrival : Arrival} (complete : arrival.Complete start) (near : arrival.Near) :
    (a.feedAll arrival.bundle.messages).1 =
        (if arrival.leads before then [arrival.bundle] else []) ∧
      (a.feedAll arrival.bundle.messages).2.lastFrameId =
        greatestId start (before ++ arrival.position.toList) := by
  obtain ⟨frame, body, ids, framed, id, plain⟩ := complete
  have whole : arrival.bundle = ⟨.frame frame :: body ++ [.alive ids]⟩ := congrArg Bundle.mk framed
  have opens : arrival.bundle.frame? = some frame := by
    rw [whole]
    rfl
  rw [framed, feedAll_framed a frame ids plain, ← whole]
  unfold close
  rw [opens]
  cases placed : arrival.position with
  | none =>
    rw [placed, Option.elim_none] at id
    simp [id, last, Arrival.leads, placed]
  | some p =>
    rw [placed, Option.elim_some] at id
    have here : p ≤ 2 ^ 31 - 2 := near p placed
    have nonzero : serial start p ≠ 0 := serial_ne_zero numbered p
    have newer := isNewer_greatest numbered past here
    simp only [id, nonzero, if_false, last, newer, Arrival.leads, placed, Option.all_some,
      Option.toList_some, greatestId_concat]
    split
    · exact ⟨rfl, rfl⟩
    · exact ⟨rfl, rfl⟩

/-- What a stream of arrivals completes, and the id that is the last one then. -/
theorem feedAll_arrivals (numbered : start ≠ 0) {before : List Nat}
    (last : a.lastFrameId = greatestId start before) (past : ∀ q ∈ before, q ≤ 2 ^ 31 - 2)
    {arrivals : List Arrival} (complete : ∀ arrival ∈ arrivals, arrival.Complete start)
    (near : ∀ arrival ∈ arrivals, arrival.Near) :
    (a.feedAll (arrivals.flatMap (·.bundle.messages))).1 =
        (leading before arrivals).map Arrival.bundle ∧
      (a.feedAll (arrivals.flatMap (·.bundle.messages))).2.lastFrameId =
        greatestId start (before ++ arrivals.filterMap Arrival.position) := by
  induction arrivals generalizing a before with
  | nil => simp [leading, last]
  | cons arrival rest ih =>
    rw [List.forall_mem_cons] at complete near
    obtain ⟨accepted, now⟩ := feedAll_arrival numbered last past complete.1 near.1
    have past' : ∀ q ∈ before ++ arrival.position.toList, q ≤ 2 ^ 31 - 2 := by
      intro q mem
      rcases List.mem_append.mp mem with old | here
      · exact past q old
      · exact near.1 q (Option.mem_toList.mp here)
    obtain ⟨later, behind⟩ := ih now past' complete.2 near.2
    have positions : before ++ (arrival :: rest).filterMap Arrival.position =
        before ++ arrival.position.toList ++ rest.filterMap Arrival.position := by
      rw [List.append_assoc]
      cases placed : arrival.position with
      | none => rw [List.filterMap_cons_none placed, Option.toList_none, List.nil_append]
      | some p => rw [List.filterMap_cons_some placed, Option.toList_some, List.singleton_append]
    rw [List.flatMap_cons, feedAll_append, positions]
    refine ⟨?_, behind⟩
    simp only [accepted, later, leading]
    split
    · rfl
    · rfl

end Assembly

/-- A client without listeners accepts the arrivals that lead, whether it processes the packets or
loads them from its inbox. The id that it compares with is the one of the greatest position. -/
theorem Client.accepts_leading (registry : Registry) (acceptUnknown : Bool) (numbered : start ≠ 0)
    {packets : List Datagram} {arrivals : List Arrival}
    (heard : Receiver.heard { registry, acceptUnknown } packets =
      arrivals.flatMap (·.bundle.messages))
    (complete : ∀ arrival ∈ arrivals, arrival.Complete start)
    (near : ∀ arrival ∈ arrivals, arrival.Near) :
    let fresh : Client := { receiver := { registry, acceptUnknown } }
    let accepted := leading [] arrivals
    let processed := fresh.processAll packets
    let loaded := ({ fresh with inbox := packets }.load 0).2
    processed.1 = accepted.length ∧
      (∀ c ∈ [processed.2, loaded], c.bundles = accepted.map Arrival.bundle ∧
        c.lastFrameId = greatestId start (arrivals.filterMap Arrival.position)) ∧
      (accepted.filterMap Arrival.position).Pairwise (· < ·) := by
  intro fresh accepted processed loaded
  have unnumbered : ({} : Assembly).lastFrameId = greatestId start [] := rfl
  obtain ⟨bundles, last⟩ :=
    Assembly.feedAll_arrivals numbered unnumbered (List.forall_mem_nil _) complete near
  rw [← heard] at bundles last
  have processedAll : processed =
      ((Assembly.feedAll {} (Receiver.heard { registry, acceptUnknown } packets)).1.length,
        fresh.hearing (Receiver.heard { registry, acceptUnknown } packets)) :=
    fresh.processAll_eq packets
  have loadedAll : loaded = _ := Client.load_eq rfl 0
  simp only [if_true, Receiver.gather_all] at loadedAll
  refine ⟨?_, ?_, (leading_ascends [] arrivals).1⟩
  · rw [processedAll, bundles, List.length_map]
  · rw [List.forall_mem_cons, List.forall_mem_singleton, processedAll, loadedAll]
    refine ⟨⟨?_, last⟩, ?_, last⟩
    · exact (bundles_pushAll rfl _).trans bundles
    · exact (bundles_pushAll rfl _).trans bundles

/-- Frames around the wrap: one that is overtaken, one that comes twice, and one without a
number. -/
def wrapped : List Arrival :=
  [(some 1, 0xffffffff), (none, 0), (some 3, 2), (some 2, 1), (some 3, 2)].map fun (position, id) =>
    ⟨position, ⟨[.frame { id }, .alive []]⟩⟩

theorem Client.accepts_leading_wrapped :
    let packets := wrapped.map (·.bundle.encode)
    let processed := ({} : Client).processAll packets
    let loaded := ({ inbox := packets : Client }.load 0).2
    processed.1 = 3 ∧
      ∀ c ∈ [processed.2, loaded],
        c.bundles = [0xffffffff, 0, 2].map (fun id => ⟨[.frame { id }, .alive []]⟩) ∧
          c.lastFrameId = 2 := by
  intro packets processed loaded
  have heard : Receiver.heard {} packets = wrapped.flatMap (·.bundle.messages) := by cbv
  have complete : ∀ arrival ∈ wrapped, arrival.Complete 0xfffffffe := by
    simp only [wrapped, List.map_cons, List.map_nil, List.forall_mem_cons]
    refine ⟨?_, ?_, ?_, ?_, ?_, List.forall_mem_nil _⟩ <;>
      exact ⟨_, [], [], rfl, rfl, List.forall_mem_nil _⟩
  have near : ∀ arrival ∈ wrapped, arrival.Near := by
    simp [wrapped, Arrival.Near]
  have all := Client.accepts_leading .defaults false (by decide) heard complete near
  exact ⟨all.1, all.2.1⟩

end Tangible
