import Tangible.Message.Basic

/-!
# Flat messages read back

A message is flat if its arguments are a fixed row of fields or a run of equal items; all kinds are
flat but those that carry a graph. Each reader is the inverse of the writer beside it. The only
exception is the list of one empty contour, which is written without arguments like the list of no
contours (`contours?_ofContours`).

The other way round, arguments that a reader accepts are written again as they were. A frame is
shortened if it describes a blank source (`Frame.args_of_ofArgs?`).
-/

namespace Tangible

open Osc (Arg)

/-! ## Words -/

theorem upperHalf_joinHalves (upper lower : UInt16) : upperHalf (joinHalves upper lower) = upper := by
  apply UInt16.toBitVec_inj.mp
  ext i hi
  simp only [upperHalf, joinHalves, UInt32.toBitVec_toUInt16, UInt32.toBitVec_shiftRight,
    UInt32.toBitVec_or, UInt32.toBitVec_shiftLeft, UInt16.toBitVec_toUInt32,
    UInt32.toBitVec_ofNat, BitVec.getElem_setWidth, BitVec.getLsbD_setWidth,
    BitVec.reduceMod, BitVec.shiftLeft_eq', BitVec.ushiftRight_eq', BitVec.toNat_ofNat,
    Nat.reduceMod, Nat.reducePow, BitVec.getLsbD_ushiftRight, BitVec.getLsbD_or,
    BitVec.getLsbD_shiftLeft]
  grind

theorem lowerHalf_joinHalves (upper lower : UInt16) : lowerHalf (joinHalves upper lower) = lower := by
  apply UInt16.toBitVec_inj.mp
  ext i hi
  simp only [lowerHalf, joinHalves, UInt32.toBitVec_toUInt16, UInt32.toBitVec_or,
    UInt32.toBitVec_shiftLeft, UInt16.toBitVec_toUInt32, UInt32.toBitVec_ofNat,
    BitVec.getElem_setWidth, BitVec.getLsbD_setWidth, BitVec.reduceMod, BitVec.shiftLeft_eq',
    BitVec.toNat_ofNat, Nat.reduceMod, Nat.reducePow, BitVec.getLsbD_or, BitVec.getLsbD_shiftLeft]
  grind

theorem joinHalves_halves (word : UInt32) : joinHalves (upperHalf word) (lowerHalf word) = word := by
  apply UInt32.toBitVec_inj.mp
  ext i hi
  simp only [upperHalf, lowerHalf, joinHalves, UInt32.toBitVec_or, UInt32.toBitVec_shiftLeft,
    UInt16.toBitVec_toUInt32, UInt32.toBitVec_toUInt16, UInt32.toBitVec_shiftRight,
    UInt32.toBitVec_ofNat, BitVec.reduceMod, BitVec.shiftLeft_eq', BitVec.ushiftRight_eq',
    BitVec.toNat_ofNat, Nat.reduceMod, Nat.reducePow, BitVec.getElem_or, BitVec.getElem_shiftLeft,
    BitVec.getElem_setWidth, BitVec.getLsbD_setWidth, BitVec.getLsbD_ushiftRight]
  grind

theorem Osc.Arg.ofId_toUInt32 (value : Int32) : Arg.ofId value.toUInt32 = .int value := by
  simp [Arg.ofId]

@[simp] theorem Identity.ofWords_args (i : Identity) :
    Identity.ofWords i.sessionId i.typeUser i.componentId = i := by
  simp only [ofWords, typeUser, upperHalf_joinHalves, lowerHalf_joinHalves]

@[simp] theorem Ports.ofPacked_packed (p : Ports) : Ports.ofPacked p.packed = p := by
  simp only [ofPacked, packed, upperHalf_joinHalves, lowerHalf_joinHalves]

/-! ## Runs -/

namespace Run

@[simp] theorem ids?_ofIds (ids : List UInt32) : ids? (ofIds ids) = some ids := by
  induction ids with
  | nil => rfl
  | cons id ids ih =>
    rw [ofIds] at ih
    simp [ofIds, Arg.ofId, ids?, ih]

@[simp] theorem floats?_ofFloats (xs : List Single) : floats? (ofFloats xs) = some xs := by
  induction xs with
  | nil => rfl
  | cons x xs ih =>
    rw [ofFloats] at ih
    simp [ofFloats, floats?, ih]

@[simp] theorem points?_ofPoints (points : List Point2) :
    points? (ofPoints points) = some points := by
  induction points with
  | nil => rfl
  | cons p points ih =>
    rw [ofPoints] at ih
    simp [ofPoints, ofPoint2, points?, ih]

@[simp] theorem spans?_ofSpans (spans : List Span) : spans? (ofSpans spans) = some spans := by
  induction spans with
  | nil => rfl
  | cons s spans ih =>
    rw [ofSpans] at ih
    simp [ofSpans, spans?, ih]

/-- A contour goes before what is read behind it. -/
theorem separated?_ofPoints (contour : List Point2) {args : List Arg} {first : List Point2}
    {others : List (List Point2)} (rest : separated? args = some (first, others)) :
    separated? (ofPoints contour ++ args) = some (contour ++ first, others) := by
  induction contour with
  | nil => simpa [ofPoints] using rest
  | cons p contour ih =>
    rw [ofPoints] at ih
    simp [ofPoints, ofPoint2, separated?, ih]

theorem separated?_ofContours (contour : List Point2) (others : List (List Point2)) :
    separated? (ofContours (contour :: others)) = some (contour, others) := by
  induction others generalizing contour with
  | nil =>
    have ended : separated? [] = some ([], []) := rfl
    have read := separated?_ofPoints contour ended
    simpa [ofContours] using read
  | cons next others ih =>
    have behind : separated? (.bool true :: ofContours (next :: others)) =
        some ([], next :: others) := by
      simp [separated?, ih]
    have read := separated?_ofPoints contour behind
    simpa [ofContours] using read

theorem contours?_ofContours {contours : List (List Point2)} (notBlank : contours ≠ [[]]) :
    contours? (ofContours contours) = some contours := by
  cases contours with
  | nil => rfl
  | cons contour others =>
    have read := separated?_ofContours contour others
    have written : ofContours (contour :: others) ≠ [] := by
      intro none
      cases others with
      | nil =>
        cases contour with
        | nil => exact notBlank rfl
        | cons p contour => simp [ofContours, ofPoints, ofPoint2] at none
      | cons next others => simp [ofContours] at none
    cases args : ofContours (contour :: others) with
    | nil => exact absurd args written
    | cons arg rest =>
      rw [args] at read
      simp [contours?, read]

end Run

@[simp] theorem Motion2.ofTail?_tail (m : Option Motion2) :
    Motion2.ofTail? (Motion2.tail m) = some m := by
  cases m with
  | none => rfl
  | some m => rfl

@[simp] theorem Motion3.ofTail?_tail (m : Option Motion3) :
    Motion3.ofTail? (Motion3.tail m) = some m := by
  cases m with
  | none => rfl
  | some m => rfl

/-! ## Kinds -/

@[simp] theorem Pointer.ofArgs?_args (p : Pointer) : Pointer.ofArgs? p.args = some p := by
  simp [args, ofArgs?, Identity.args, Run.ofIds, Run.ofFloats, Arg.ofId]

@[simp] theorem Token.ofArgs?_args (t : Token) : Token.ofArgs? t.args = some t := by
  simp [args, ofArgs?, Identity.args, Run.ofIds, Run.ofFloats, Arg.ofId]

@[simp] theorem Bounds.ofArgs?_args (b : Bounds) : Bounds.ofArgs? b.args = some b := by
  simp [args, ofArgs?, Run.ofFloats, Arg.ofId]

@[simp] theorem Symbol.ofArgs?_args (s : Symbol) : Symbol.ofArgs? s.args = some s := by
  simp [args, ofArgs?, Identity.args, Run.ofIds, Arg.ofId]

@[simp] theorem Pointer3.ofArgs?_args (p : Pointer3) : Pointer3.ofArgs? p.args = some p := by
  simp [args, ofArgs?, Identity.args, Run.ofIds, Run.ofPoint3, Arg.ofId]

@[simp] theorem Token3.ofArgs?_args (t : Token3) : Token3.ofArgs? t.args = some t := by
  simp [args, ofArgs?, Identity.args, Run.ofIds, Run.ofPoint3, Arg.ofId]

@[simp] theorem Bounds3.ofArgs?_args (b : Bounds3) : Bounds3.ofArgs? b.args = some b := by
  simp [args, ofArgs?, Run.ofFloats, Run.ofPoint3, Arg.ofId]

@[simp] theorem Control.ofArgs?_args (c : Control) : Control.ofArgs? c.args = some c := by
  simp [args, ofArgs?, Arg.ofId]

@[simp] theorem Data.ofArgs?_args (d : Data) : Data.ofArgs? d.args = some d := by
  obtain ⟨session, mime, content⟩ := d
  cases content <;> simp [args, ofArgs?, Arg.ofId]

@[simp] theorem Signal.ofArgs?_args (s : Signal) : Signal.ofArgs? s.args = some s := by
  have targets := Run.ids?_ofIds s.targets
  rw [Run.ofIds] at targets
  simp [args, ofArgs?, Run.ofIds, Arg.ofId, targets]

@[simp] theorem RawSamples.ofArgs?_args (r : RawSamples) : RawSamples.ofArgs? r.args = some r := by
  simp [args, ofArgs?, Arg.ofId]

@[simp] theorem Outline.ofArgs?_args (o : Outline) : Outline.ofArgs? o.args = some o := by
  simp [args, ofArgs?, Arg.ofId]

theorem InnerContours.ofArgs?_args {i : InnerContours} (notBlank : i.contours ≠ [[]]) :
    InnerContours.ofArgs? i.args = some i := by
  simp [args, ofArgs?, Arg.ofId, Run.contours?_ofContours notBlank]

@[simp] theorem Area.ofArgs?_args (a : Area) : Area.ofArgs? a.args = some a := by
  simp [args, ofArgs?, Arg.ofId]

@[simp] theorem Radii.ofArgs?_args (r : Radii) : Radii.ofArgs? r.args = some r := by
  simp [args, ofArgs?, Arg.ofId]

@[simp] theorem Container.ofArgs?_args (c : Container) : Container.ofArgs? c.args = some c := by
  have contained := Run.ids?_ofIds c.contained
  rw [Run.ofIds] at contained
  simp [args, ofArgs?, Run.ofIds, Arg.ofId, contained]

theorem Frame.isExtended_eq_false_iff (f : Frame) :
    f.isExtended = false ↔
      f.application = "" ∧ f.address = 0 ∧ f.instanceId = 0 ∧ f.dimension = 0 := by
  simp [isExtended, and_assoc]

/-- A frame that is not extended has the blank source that the short form stands for. -/
@[simp] theorem Frame.ofArgs?_args (f : Frame) : Frame.ofArgs? f.args = some f := by
  have width := upperHalf_joinHalves f.width f.height
  have height := lowerHalf_joinHalves f.width f.height
  cases extended : f.isExtended with
  | true => simp [args, ofArgs?, extended, Run.ofIds, Arg.ofId, dimension, width, height]
  | false =>
    obtain ⟨application, address, instanceId, blank⟩ := f.isExtended_eq_false_iff.mp extended
    rw [dimension] at blank
    rw [blank] at width height
    have short : f.args = [.ofId f.id, .time f.time] := by simp [args, extended]
    obtain ⟨id, time, _, _, _, _, _⟩ := f
    subst application address instanceId width height
    rw [short]
    simp [ofArgs?, Arg.ofId, upperHalf, lowerHalf]

/-! ## What is read is written again -/

theorem Identity.args_ofWords (session contact component : Int32) :
    (Identity.ofWords session.toUInt32 contact.toUInt32 component.toUInt32).args =
      [.int session, .int contact, .int component] := by
  simp only [args, ofWords, typeUser, joinHalves_halves, Run.ofIds, List.map_cons, List.map_nil,
    Arg.ofId_toUInt32]

namespace Run

theorem ofIds_of_ids? {args : List Arg} {ids : List UInt32} (read : ids? args = some ids) :
    ofIds ids = args := by
  fun_induction ids? args generalizing ids with
  | case1 =>
    obtain rfl := Option.some.inj read
    rfl
  | case2 value rest ih =>
    obtain ⟨ids, behind, rfl⟩ := Option.map_eq_some_iff.mp read
    rw [ofIds, List.map_cons, Arg.ofId_toUInt32]
    exact congrArg _ (ih behind)
  | case3 => simp at read

theorem ofFloats_of_floats? {args : List Arg} {xs : List Single} (read : floats? args = some xs) :
    ofFloats xs = args := by
  fun_induction floats? args generalizing xs with
  | case1 =>
    obtain rfl := Option.some.inj read
    rfl
  | case2 x rest ih =>
    obtain ⟨xs, behind, rfl⟩ := Option.map_eq_some_iff.mp read
    exact congrArg _ (ih behind)
  | case3 => simp at read

theorem ofPoints_of_points? {args : List Arg} {points : List Point2}
    (read : points? args = some points) : ofPoints points = args := by
  fun_induction points? args generalizing points with
  | case1 =>
    obtain rfl := Option.some.inj read
    rfl
  | case2 x y rest ih =>
    obtain ⟨points, behind, rfl⟩ := Option.map_eq_some_iff.mp read
    exact congrArg ([.float x, .float y] ++ ·) (ih behind)
  | case3 => simp at read

theorem ofSpans_of_spans? {args : List Arg} {spans : List Span} (read : spans? args = some spans) :
    ofSpans spans = args := by
  fun_induction spans? args generalizing spans with
  | case1 =>
    obtain rfl := Option.some.inj read
    rfl
  | case2 x y width rest ih =>
    obtain ⟨spans, behind, rfl⟩ := Option.map_eq_some_iff.mp read
    exact congrArg ([.float x, .float y, .float width] ++ ·) (ih behind)
  | case3 => simp at read

end Run

theorem Motion2.tail_of_ofTail? {args : List Arg} {m : Option Motion2}
    (read : ofTail? args = some m) : tail m = args := by
  unfold ofTail? at read
  split at read
  · obtain rfl := Option.some.inj read
    rfl
  · obtain rfl := Option.some.inj read
    rfl
  · simp at read

theorem Motion3.tail_of_ofTail? {args : List Arg} {m : Option Motion3}
    (read : ofTail? args = some m) : tail m = args := by
  unfold ofTail? at read
  split at read
  · obtain rfl := Option.some.inj read
    rfl
  · obtain rfl := Option.some.inj read
    rfl
  · simp at read

section

variable {args : List Arg}

theorem Pointer.args_of_ofArgs? {p : Pointer} (read : ofArgs? args = some p) : p.args = args := by
  unfold ofArgs? at read
  split at read
  · obtain ⟨motion, tail, rfl⟩ := Option.map_eq_some_iff.mp read
    rw [← Motion2.tail_of_ofTail? tail, Pointer.args, Identity.args_ofWords]
    rfl
  · simp at read

theorem Token.args_of_ofArgs? {t : Token} (read : ofArgs? args = some t) : t.args = args := by
  unfold ofArgs? at read
  split at read
  · obtain ⟨motion, tail, rfl⟩ := Option.map_eq_some_iff.mp read
    rw [← Motion2.tail_of_ofTail? tail, Token.args, Identity.args_ofWords]
    rfl
  · simp at read

theorem Bounds.args_of_ofArgs? {b : Bounds} (read : ofArgs? args = some b) : b.args = args := by
  unfold ofArgs? at read
  split at read
  · obtain ⟨motion, tail, rfl⟩ := Option.map_eq_some_iff.mp read
    rw [← Motion2.tail_of_ofTail? tail, Bounds.args, Arg.ofId_toUInt32]
    rfl
  · simp at read

theorem Symbol.args_of_ofArgs? {s : Symbol} (read : ofArgs? args = some s) : s.args = args := by
  unfold ofArgs? at read
  split at read
  · obtain rfl := Option.some.inj read
    rw [Symbol.args, Identity.args_ofWords]
    rfl
  · simp at read

theorem Pointer3.args_of_ofArgs? {p : Pointer3} (read : ofArgs? args = some p) : p.args = args := by
  unfold ofArgs? at read
  split at read
  · obtain ⟨motion, tail, rfl⟩ := Option.map_eq_some_iff.mp read
    rw [← Motion3.tail_of_ofTail? tail, Pointer3.args, Identity.args_ofWords]
    rfl
  · simp at read

theorem Token3.args_of_ofArgs? {t : Token3} (read : ofArgs? args = some t) : t.args = args := by
  unfold ofArgs? at read
  split at read
  · obtain ⟨motion, tail, rfl⟩ := Option.map_eq_some_iff.mp read
    rw [← Motion3.tail_of_ofTail? tail, Token3.args, Identity.args_ofWords]
    rfl
  · simp at read

theorem Bounds3.args_of_ofArgs? {b : Bounds3} (read : ofArgs? args = some b) : b.args = args := by
  unfold ofArgs? at read
  split at read
  · obtain ⟨motion, tail, rfl⟩ := Option.map_eq_some_iff.mp read
    rw [← Motion3.tail_of_ofTail? tail, Bounds3.args, Arg.ofId_toUInt32]
    rfl
  · simp at read

theorem Control.args_of_ofArgs? {c : Control} (read : ofArgs? args = some c) : c.args = args := by
  unfold ofArgs? at read
  split at read
  · obtain ⟨values, behind, rfl⟩ := Option.map_eq_some_iff.mp read
    rw [Control.args, Run.ofFloats_of_floats? behind, Arg.ofId_toUInt32]
  · simp at read

theorem Data.args_of_ofArgs? {d : Data} (read : ofArgs? args = some d) : d.args = args := by
  unfold ofArgs? at read
  split at read
  · obtain rfl := Option.some.inj read
    rw [Data.args, Arg.ofId_toUInt32]
  · obtain rfl := Option.some.inj read
    rw [Data.args, Arg.ofId_toUInt32]
  · simp at read

theorem Signal.args_of_ofArgs? {s : Signal} (read : ofArgs? args = some s) : s.args = args := by
  unfold ofArgs? at read
  split at read
  · obtain ⟨targets, behind, rfl⟩ := Option.map_eq_some_iff.mp read
    rw [← Run.ofIds_of_ids? behind, ← Arg.ofId_toUInt32, ← Arg.ofId_toUInt32]
    rfl
  · simp at read

theorem RawSamples.args_of_ofArgs? {r : RawSamples} (read : ofArgs? args = some r) :
    r.args = args := by
  unfold ofArgs? at read
  split at read
  · obtain rfl := Option.some.inj read
    rw [RawSamples.args, Arg.ofId_toUInt32]
  · simp at read

theorem Outline.args_of_ofArgs? {o : Outline} (read : ofArgs? args = some o) : o.args = args := by
  unfold ofArgs? at read
  split at read
  · obtain ⟨points, behind, rfl⟩ := Option.map_eq_some_iff.mp read
    rw [Outline.args, Run.ofPoints_of_points? behind, Arg.ofId_toUInt32]
  · simp at read

theorem Area.args_of_ofArgs? {a : Area} (read : ofArgs? args = some a) : a.args = args := by
  unfold ofArgs? at read
  split at read
  · obtain ⟨spans, behind, rfl⟩ := Option.map_eq_some_iff.mp read
    rw [Area.args, Run.ofSpans_of_spans? behind, Arg.ofId_toUInt32]
  · simp at read

theorem Radii.args_of_ofArgs? {r : Radii} (read : ofArgs? args = some r) : r.args = args := by
  unfold ofArgs? at read
  split at read
  · obtain ⟨radii, behind, rfl⟩ := Option.map_eq_some_iff.mp read
    rw [Radii.args, Run.ofFloats_of_floats? behind, Arg.ofId_toUInt32]
  · simp at read

theorem Container.args_of_ofArgs? {c : Container} (read : ofArgs? args = some c) :
    c.args = args := by
  unfold ofArgs? at read
  split at read
  · obtain ⟨contained, behind, rfl⟩ := Option.map_eq_some_iff.mp read
    rw [← Run.ofIds_of_ids? behind, ← Arg.ofId_toUInt32, ← Arg.ofId_toUInt32]
    rfl
  · simp at read

/-- The arguments of a frame without a description of nothing. -/
def Frame.shortened : List Arg → List Arg
  | [id, time, .string application, .int address, .int instanceId, .int dimension] =>
    if application = "" ∧ address = 0 ∧ instanceId = 0 ∧ dimension = 0 then [id, time]
    else [id, time, .string application, .int address, .int instanceId, .int dimension]
  | args => args

theorem toUInt32_eq_zero_iff (value : Int32) : value.toUInt32 = 0 ↔ value = 0 :=
  ⟨congrArg UInt32.toInt32, congrArg Int32.toUInt32⟩

theorem Frame.args_of_ofArgs? {f : Frame} (read : ofArgs? args = some f) :
    f.args = shortened args := by
  unfold ofArgs? at read
  split at read
  · obtain rfl := Option.some.inj read
    simp [Frame.args, isExtended, dimension, joinHalves, shortened, Arg.ofId_toUInt32]
  · next id time application address instanceId dimension =>
    obtain rfl := Option.some.inj read
    have words := joinHalves_halves dimension.toUInt32
    by_cases nothing : application = "" ∧ address = 0 ∧ instanceId = 0 ∧ dimension = 0
    · obtain ⟨rfl, rfl, rfl, rfl⟩ := nothing
      have zero : Int32.toUInt32 0 = 0 := rfl
      simp [Frame.args, isExtended, Frame.dimension, joinHalves_halves, zero, shortened,
        Arg.ofId_toUInt32]
    · have described : isExtended
          { id := id.toUInt32, time, application
            address := address.toUInt32
            instanceId := instanceId.toUInt32
            width := upperHalf dimension.toUInt32
            height := lowerHalf dimension.toUInt32 } = true := by
        refine Bool.of_not_eq_false fun blank => nothing ?_
        simpa only [isExtended_eq_false_iff, Frame.dimension, words, toUInt32_eq_zero_iff]
          using blank
      rw [Frame.args, if_pos described, shortened, if_neg nothing]
      simp only [Run.ofIds, Frame.dimension, words, List.map_cons, List.map_nil,
        Arg.ofId_toUInt32]
  · simp at read

end

end Tangible
