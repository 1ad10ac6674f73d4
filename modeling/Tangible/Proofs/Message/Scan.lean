import Tangible.Message.Scan
import Tangible.Proofs.Lists
import Tangible.Proofs.Message.Contour

/-!
# Scans and readers

A scan takes arguments from the front of a list. `Inverts` says that it takes what a writer makes
and nothing else, whatever stands behind, and `Exhausts` that it takes all there is. The scan of a
message is put together of scans of its fields, and so is what it undoes: `Inverts.bind` and
`Exhausts.bind` hand the rest of the arguments on to the next field.

The readers of whole lists undo the same writers. So a scan and a reader agree (`Exhausts.agrees`).
Inner contours and frames are told apart from others by what is left of the arguments; their scans
are compared with the readers directly.
-/

namespace Tangible

open Osc (Arg Cursor)

namespace Scan

variable {α β : Type} {args rest : List Arg}

/-- What a scan reads in front of a list of arguments, and what it leaves. -/
def reads (scan : Scan α) (args : List Arg) : Option (α × List Arg) :=
  match scan.run.run ⟨args⟩ with
  | (some a, c) => some (a, c.rest)
  | (none, _) => none

theorem of?_eq (scan : Scan α) (args : List Arg) :
    scan.of? args = (scan.reads args).map (·.1) := by
  unfold of? reads
  rcases scan.run.run ⟨args⟩ with ⟨_ | a, c⟩ <;> rfl

theorem reads_pure (a : α) : (pure a : Scan α).reads args = some (a, args) := rfl

theorem reads_failure : (failure : Scan α).reads args = none := rfl

theorem reads_bind (scan : Scan α) (next : α → Scan β) :
    (scan >>= next).reads args = (scan.reads args).bind fun read => (next read.1).reads read.2 := by
  have run : (scan >>= next).run.run ⟨args⟩ =
      match scan.run.run ⟨args⟩ with
      | (some a, c) => (next a).run.run c
      | (none, c) => (none, c) := by
    simp only [OptionT.run_bind, Option.elimM, StateT.run_bind]
    rcases scan.run.run ⟨args⟩ with ⟨_ | a, c⟩ <;> rfl
  unfold reads
  rw [run]
  rcases scan.run.run ⟨args⟩ with ⟨_ | a, c⟩ <;> rfl

theorem reads_map (f : α → β) (scan : Scan α) :
    (f <$> scan).reads args = (scan.reads args).map fun read => (f read.1, read.2) := by
  rw [map_eq_pure_bind, reads_bind]
  cases scan.reads args <;> rfl

theorem reads_lift (a : Option α) : (lift a).reads args = a.map (·, args) := by
  cases a <;> rfl

theorem reads_remaining : remaining.reads args = some (args.length, args) := rfl

theorem reads_isEmpty : isEmpty.reads args = some (args.isEmpty, args) := rfl

theorem reads_finish : finish.reads args = if args.isEmpty then some ((), args) else none := by
  cases args <;> rfl

theorem reads_separator : separator.reads args =
    match args with
    | .bool true :: rest => some (true, rest)
    | _ => some (false, args) := by
  unfold separator reads
  rcases args with _ | ⟨arg, rest⟩
  · rfl
  · cases arg with
    | bool b => cases b <;> rfl
    | _ => rfl

theorem reads_guard (p : Prop) [Decidable p] :
    (guard p : Scan Unit).reads args = if p then some ((), args) else none := by
  unfold guard
  split <;> rfl

/-! ## The next step of a scan -/

theorem reads_pure_iff {a a' : α} :
    (pure a : Scan α).reads args = some (a', rest) ↔ a = a' ∧ args = rest := by
  simp [reads_pure]

theorem finish_bind_iff {next : Unit → Scan β} {b : β} :
    (finish >>= next).reads args = some (b, rest) ↔
      args = [] ∧ (next ()).reads [] = some (b, rest) := by
  rw [reads_bind, reads_finish]
  cases args <;> simp

theorem isEmpty_bind {next : Bool → Scan β} :
    (isEmpty >>= next).reads args = (next args.isEmpty).reads args := by
  rw [reads_bind, reads_isEmpty, Option.bind_some]

theorem lift_bind_iff {a : Option α} {next : α → Scan β} {b : β} :
    (lift a >>= next).reads args = some (b, rest) ↔
      ∃ x, a = some x ∧ (next x).reads args = some (b, rest) := by
  rw [reads_bind, reads_lift]
  cases a <;> simp

theorem separator_bind_iff {next : Bool → Scan β} {b : β} :
    (separator >>= next).reads args = some (b, rest) ↔
      (∃ behind, args = .bool true :: behind ∧ (next true).reads behind = some (b, rest)) ∨
        args.head? ≠ some (.bool true) ∧ (next false).reads args = some (b, rest) := by
  rw [reads_bind, reads_separator]
  split
  · simp
  · next other =>
    have different : args.head? ≠ some (.bool true) := by
      cases args with
      | nil => exact nofun
      | cons arg args => exact fun same => other args (by rw [Option.some.inj same])
    simp only [Option.bind_some, ne_eq, different, not_false_eq_true, true_and]
    constructor
    · exact .inr
    · rintro (⟨behind, rfl, -⟩ | read)
      · exact absurd rfl (other behind)
      · exact read

/-- The last field takes all that is left. -/
theorem bind_finish_iff {scan : Scan α} {make : α → β} {b : β} :
    (do let a ← scan; finish; pure (make a)).reads args = some (b, rest) ↔
      (∃ a, scan.reads args = some (a, []) ∧ make a = b) ∧ rest = [] := by
  rw [reads_bind, Option.bind_eq_some_iff, Prod.exists]
  simp only [finish_bind_iff, reads_pure_iff]
  constructor
  · rintro ⟨a, _, read, rfl, rfl, rfl⟩
    exact ⟨⟨a, read, rfl⟩, rfl⟩
  · rintro ⟨⟨a, read, rfl⟩, rfl⟩
    exact ⟨a, [], read, rfl, rfl, rfl⟩

/-! ## What a scan undoes -/

/-- The scan reads what `write` makes, and nothing else. -/
def Inverts (scan : Scan α) (write : α → List Arg) : Prop :=
  ∀ args a rest, scan.reads args = some (a, rest) ↔ args = write a ++ rest

theorem Inverts.bind {scan : Scan α} {write : α → List Arg} (inverts : Inverts scan write)
    {next : α → Scan β} {b : β} :
    (scan >>= next).reads args = some (b, rest) ↔
      ∃ a behind, args = write a ++ behind ∧ (next a).reads behind = some (b, rest) := by
  rw [reads_bind, Option.bind_eq_some_iff, Prod.exists]
  simp only [inverts _ _ _]

/-- The scan reads all of what `write` makes, and nothing else. -/
def Exhausts (scan : Scan α) (write : α → List Arg) : Prop :=
  ∀ args a rest, scan.reads args = some (a, rest) ↔ args = write a ∧ rest = []

theorem Exhausts.bind {scan : Scan α} {write : α → List Arg} (exhausts : Exhausts scan write)
    {next : α → Scan β} {b : β} :
    (scan >>= next).reads args = some (b, rest) ↔
      ∃ a, args = write a ∧ (next a).reads [] = some (b, rest) := by
  rw [reads_bind, Option.bind_eq_some_iff, Prod.exists]
  simp only [exhausts _ _ _]
  constructor
  · rintro ⟨a, _, ⟨rfl, rfl⟩, read⟩
    exact ⟨a, rfl, read⟩
  · rintro ⟨a, rfl, read⟩
    exact ⟨a, [], ⟨rfl, rfl⟩, read⟩

/-- The scan reads what `write` makes, and nothing else, in front of what it stops at. -/
def Halts (scan : Scan α) (write : α → List Arg) (stop : List Arg → Prop) : Prop :=
  ∀ args a rest, scan.reads args = some (a, rest) ↔ args = write a ++ rest ∧ stop rest

theorem Halts.bind {scan : Scan α} {write : α → List Arg} {stop : List Arg → Prop}
    (halts : Halts scan write stop) {next : α → Scan β} {b : β} :
    (scan >>= next).reads args = some (b, rest) ↔
      ∃ a behind, args = write a ++ behind ∧ stop behind ∧
        (next a).reads behind = some (b, rest) := by
  rw [reads_bind, Option.bind_eq_some_iff, Prod.exists]
  simp only [halts _ _ _, and_assoc]

theorem Inverts.halts {scan : Scan α} {write : α → List Arg} (inverts : Inverts scan write) :
    Halts scan write fun _ => True := by
  intro args a rest
  rw [inverts, and_true]

/-- The scan reads what a reader of whole lists reads, up to the end. -/
def Agrees (scan : Scan α) (read? : List Arg → Option α) : Prop :=
  ∀ args a rest, scan.reads args = some (a, rest) ↔ read? args = some a ∧ rest = []

theorem Agrees.of?_eq {scan : Scan α} {read? : List Arg → Option α} (agrees : Agrees scan read?)
    (args : List Arg) : scan.of? args = read? args := by
  refine Option.ext fun a => ?_
  rw [Scan.of?_eq, Option.map_eq_some_iff, Prod.exists]
  simp only [agrees _ _ _]
  constructor
  · rintro ⟨_, _, ⟨read, -⟩, rfl⟩
    exact read
  · intro read
    exact ⟨a, [], ⟨read, rfl⟩, rfl⟩

theorem Agrees.map {scan : Scan α} {read? : List Arg → Option α} (agrees : Agrees scan read?)
    (f : α → β) (args : List Arg) : (f <$> scan).of? args = (read? args).map f := by
  rw [← agrees.of?_eq, Scan.of?_eq, Scan.of?_eq, reads_map]
  cases scan.reads args <;> rfl

/-- A scan and a reader of whole lists agree if they undo the same writer. -/
theorem Exhausts.agrees {scan : Scan α} {write : α → List Arg} (exhausts : Exhausts scan write)
    {read? : List Arg → Option α} (read?_write : ∀ a, read? (write a) = some a)
    (write_of_read? : ∀ {args a}, read? args = some a → write a = args) : Agrees scan read? := by
  intro args a rest
  rw [exhausts]
  constructor
  · rintro ⟨rfl, rfl⟩
    exact ⟨read?_write a, rfl⟩
  · rintro ⟨read, rfl⟩
    exact ⟨(write_of_read? read).symm, rfl⟩

/-! ## Single arguments -/

theorem inverts_next {view : Arg → Option α} {make : α → Arg}
    (views : ∀ arg a, view arg = some a ↔ arg = make a) :
    Inverts (.mk (Cursor.next view)) fun a => [make a] := by
  intro args a rest
  cases args with
  | nil =>
    have nothing : reads (.mk (Cursor.next view)) [] = none := rfl
    simp [nothing]
  | cons arg behind =>
    have first : reads (.mk (Cursor.next view)) (arg :: behind) =
        (view arg).map (·, behind) := by
      cases viewed : view arg <;>
        simp [reads, OptionT.mk, OptionT.run, StateT.run, Cursor.next, viewed]
    rw [first, List.singleton_append, List.cons.injEq, ← views, Option.map_eq_some_iff]
    constructor
    · rintro ⟨_, viewed, same⟩
      cases same
      exact ⟨viewed, rfl⟩
    · rintro ⟨viewed, rfl⟩
      exact ⟨a, viewed, rfl⟩

theorem inverts_uint : Inverts uint fun id => [.ofId id] := by
  refine inverts_next fun arg id => ?_
  cases arg with
  | int value => simpa [Arg.ofId] using ⟨fun h => by simp [← h], fun h => by simp [h]⟩
  | _ => simp [Arg.ofId]

/-- An integer is read as the identifier with the same bits. -/
theorem int_cons (value : Int32) (rest : List Arg) :
    .int value :: rest = [.ofId value.toUInt32] ++ rest := by
  rw [Arg.ofId_toUInt32]
  rfl

theorem inverts_float : Inverts float fun x => [.float x] :=
  inverts_next fun arg _ => by cases arg <;> simp

theorem inverts_string : Inverts string fun text => [.string text] :=
  inverts_next fun arg _ => by cases arg <;> simp

theorem inverts_blob : Inverts blob fun bytes => [.blob bytes] :=
  inverts_next fun arg _ => by cases arg <;> simp

theorem inverts_time : Inverts time fun t => [.time t] :=
  inverts_next fun arg _ => by cases arg <;> simp

theorem inverts_bool : Inverts bool fun b => [.bool b] :=
  inverts_next fun arg _ => by cases arg <;> simp

theorem inverts_skip : Inverts skip fun arg => [arg] :=
  inverts_next fun _ _ => by simp

/-! ## Components -/

theorem inverts_identity : Inverts identity Identity.args := by
  intro args i rest
  simp only [identity, inverts_uint.bind, reads_pure_iff]
  constructor
  · rintro ⟨session, _, rfl, contact, _, rfl, component, _, rfl, rfl, rfl⟩
    simp [Identity.args, Identity.ofWords, Identity.typeUser, joinHalves_halves, Run.ofIds]
  · rintro rfl
    exact ⟨i.sessionId, _, rfl, i.typeUser, _, rfl, i.componentId, _, rfl, by simp, rfl⟩

theorem inverts_point2 : Inverts point2 Run.ofPoint2 := by
  intro args p rest
  simp only [point2, inverts_float.bind, reads_pure_iff]
  constructor
  · rintro ⟨x, _, rfl, y, _, rfl, rfl, rfl⟩
    rfl
  · rintro rfl
    exact ⟨p.x, _, rfl, p.y, _, rfl, rfl, rfl⟩

theorem inverts_point3 : Inverts point3 Run.ofPoint3 := by
  intro args p rest
  simp only [point3, inverts_float.bind, reads_pure_iff]
  constructor
  · rintro ⟨x, _, rfl, y, _, rfl, z, _, rfl, rfl, rfl⟩
    rfl
  · rintro rfl
    exact ⟨p.x, _, rfl, p.y, _, rfl, p.z, _, rfl, rfl, rfl⟩

theorem inverts_motion2 : Inverts motion2 fun m => Run.ofFloats m.toFloats := by
  intro args m rest
  simp only [motion2, inverts_point2.bind, inverts_float.bind, reads_pure_iff]
  constructor
  · rintro ⟨v, _, rfl, va, _, rfl, a, _, rfl, ra, _, rfl, rfl, rfl⟩
    rfl
  · rintro rfl
    exact ⟨⟨m.velocityX, m.velocityY⟩, _, rfl, m.angularVelocity, _, rfl, m.acceleration, _, rfl,
      m.angularAcceleration, _, rfl, rfl, rfl⟩

theorem inverts_motion3 : Inverts motion3 fun m => Run.ofFloats m.toFloats := by
  intro args m rest
  simp only [motion3, inverts_point3.bind, inverts_float.bind, reads_pure_iff]
  constructor
  · rintro ⟨v, _, rfl, va, _, rfl, a, _, rfl, ra, _, rfl, rfl, rfl⟩
    rfl
  · rintro rfl
    exact ⟨⟨m.velocityX, m.velocityY, m.velocityZ⟩, _, rfl, m.angularVelocity, _, rfl,
      m.acceleration, _, rfl, m.angularAcceleration, _, rfl, rfl, rfl⟩

theorem Inverts.optional {scan : Scan α} {write : α → List Arg} (inverts : Inverts scan write)
    {count : Nat} (length : ∀ a, (write a).length = count) (some : count ≠ 0) :
    Exhausts (optional count scan) (·.elim [] write) := by
  intro args a rest
  rw [Scan.optional, reads_bind, reads_remaining, Option.bind_some]
  dsimp only
  split
  · next none =>
    rw [List.length_eq_zero_iff] at none
    subst none
    cases a with
    | none =>
      rw [reads_pure_iff]
      simp [eq_comm]
    | some a =>
      have nonempty : [] ≠ write a := fun same => some (length a ▸ congrArg List.length same.symm)
      simp [reads_pure_iff, nonempty]
  · next left =>
    split
    · next all =>
      rw [reads_map, Option.map_eq_some_iff]
      constructor
      · rintro ⟨⟨x, behind⟩, read, same⟩
        obtain rfl := (inverts _ _ _).mp read
        cases same
        rw [List.length_append, length] at all
        obtain rfl := List.length_eq_zero_iff.mp (Nat.left_eq_add.mp all.symm)
        simp
      · rintro ⟨rfl, rfl⟩
        cases a with
        | none => exact absurd rfl left
        | some a =>
          exact ⟨(a, []), (inverts _ _ _).mpr (List.append_nil _).symm, rfl⟩
    · next other =>
      rw [reads_failure]
      simp only [reduceCtorEq, false_iff, not_and]
      rintro rfl
      cases a with
      | none => exact absurd rfl left
      | some a => exact absurd (length a) other

theorem exhausts_tail2 : Exhausts (optional 5 motion2) Motion2.tail := by
  have tail : Motion2.tail = (·.elim [] fun m => Run.ofFloats m.toFloats) := by
    funext m
    cases m <;> rfl
  exact tail ▸ inverts_motion2.optional (fun _ => rfl) (by decide)

theorem exhausts_tail3 : Exhausts (optional 6 motion3) Motion3.tail := by
  have tail : Motion3.tail = (·.elim [] fun m => Run.ofFloats m.toFloats) := by
    funext m
    cases m <;> rfl
  exact tail ▸ inverts_motion3.optional (fun _ => rfl) (by decide)

theorem exhausts_pointer : Exhausts pointer Pointer.args := by
  intro args p rest
  simp only [pointer, inverts_identity.bind, inverts_point2.bind, inverts_float.bind,
    exhausts_tail2.bind, finish_bind_iff, reads_pure_iff]
  constructor
  · rintro ⟨i, _, rfl, q, _, rfl, angle, _, rfl, shear, _, rfl, radius, _, rfl, pressure, _, rfl,
      motion, rfl, -, rfl, rfl⟩
    exact ⟨rfl, rfl⟩
  · rintro ⟨rfl, rfl⟩
    exact ⟨p.identity, _, rfl, p.position, _, rfl, p.angle, _, rfl, p.shear, _, rfl, p.radius, _,
      rfl, p.pressure, _, rfl, p.motion, rfl, trivial, rfl, rfl⟩

theorem exhausts_token : Exhausts token Token.args := by
  intro args t rest
  simp only [token, inverts_identity.bind, inverts_point2.bind, inverts_float.bind,
    exhausts_tail2.bind, finish_bind_iff, reads_pure_iff]
  constructor
  · rintro ⟨i, _, rfl, q, _, rfl, angle, _, rfl, motion, rfl, -, rfl, rfl⟩
    exact ⟨rfl, rfl⟩
  · rintro ⟨rfl, rfl⟩
    exact ⟨t.identity, _, rfl, t.position, _, rfl, t.angle, _, rfl, t.motion, rfl, trivial, rfl, rfl⟩

theorem exhausts_bounds : Exhausts bounds Bounds.args := by
  intro args b rest
  simp only [bounds, inverts_uint.bind, inverts_point2.bind, inverts_float.bind,
    exhausts_tail2.bind, finish_bind_iff, reads_pure_iff]
  constructor
  · rintro ⟨session, _, rfl, q, _, rfl, angle, _, rfl, width, _, rfl, height, _, rfl, area, _, rfl,
      motion, rfl, -, rfl, rfl⟩
    exact ⟨rfl, rfl⟩
  · rintro ⟨rfl, rfl⟩
    exact ⟨b.sessionId, _, rfl, b.position, _, rfl, b.angle, _, rfl, b.width, _, rfl, b.height, _,
      rfl, b.area, _, rfl, b.motion, rfl, trivial, rfl, rfl⟩

theorem exhausts_symbol : Exhausts symbol Symbol.args := by
  intro args s rest
  simp only [symbol, inverts_identity.bind, inverts_string.bind, finish_bind_iff, reads_pure_iff]
  constructor
  · rintro ⟨i, _, rfl, group, _, rfl, data, _, rfl, rfl, rfl, rfl⟩
    exact ⟨rfl, rfl⟩
  · rintro ⟨rfl, rfl⟩
    exact ⟨s.identity, _, rfl, s.group, _, rfl, s.data, _, rfl, rfl, rfl, rfl⟩

theorem exhausts_pointer3 : Exhausts pointer3 Pointer3.args := by
  intro args p rest
  simp only [pointer3, inverts_identity.bind, inverts_point3.bind, inverts_float.bind,
    exhausts_tail3.bind, finish_bind_iff, reads_pure_iff]
  constructor
  · rintro ⟨i, _, rfl, q, _, rfl, axis, _, rfl, radius, _, rfl, motion, rfl, -, rfl, rfl⟩
    exact ⟨rfl, rfl⟩
  · rintro ⟨rfl, rfl⟩
    exact ⟨p.identity, _, rfl, p.position, _, rfl, p.axis, _, rfl, p.radius, _, rfl, p.motion, rfl,
      trivial, rfl, rfl⟩

theorem exhausts_token3 : Exhausts token3 Token3.args := by
  intro args t rest
  simp only [token3, inverts_identity.bind, inverts_point3.bind, inverts_float.bind,
    exhausts_tail3.bind, finish_bind_iff, reads_pure_iff]
  constructor
  · rintro ⟨i, _, rfl, q, _, rfl, angle, _, rfl, axis, _, rfl, motion, rfl, -, rfl, rfl⟩
    exact ⟨rfl, rfl⟩
  · rintro ⟨rfl, rfl⟩
    exact ⟨t.identity, _, rfl, t.position, _, rfl, t.angle, _, rfl, t.axis, _, rfl, t.motion, rfl,
      trivial, rfl, rfl⟩

theorem exhausts_bounds3 : Exhausts bounds3 Bounds3.args := by
  intro args b rest
  simp only [bounds3, inverts_uint.bind, inverts_point3.bind, inverts_float.bind,
    exhausts_tail3.bind, finish_bind_iff, reads_pure_iff]
  constructor
  · rintro ⟨session, _, rfl, q, _, rfl, angle, _, rfl, axis, _, rfl, width, _, rfl, height, _, rfl,
      depth, _, rfl, volume, _, rfl, motion, rfl, -, rfl, rfl⟩
    exact ⟨rfl, rfl⟩
  · rintro ⟨rfl, rfl⟩
    exact ⟨b.sessionId, _, rfl, b.position, _, rfl, b.angle, _, rfl, b.axis, _, rfl, b.width, _, rfl,
      b.height, _, rfl, b.depth, _, rfl, b.volume, _, rfl, b.motion, rfl, trivial, rfl, rfl⟩

/-! ## Payloads -/

theorem exhausts_raw : Exhausts raw RawSamples.args := by
  intro args r rest
  simp only [raw, inverts_uint.bind, inverts_float.bind, inverts_blob.bind, finish_bind_iff,
    reads_pure_iff]
  constructor
  · rintro ⟨session, _, rfl, spacing, _, rfl, samples, _, rfl, rfl, rfl, rfl⟩
    exact ⟨rfl, rfl⟩
  · rintro ⟨rfl, rfl⟩
    exact ⟨r.sessionId, _, rfl, r.spacing, _, rfl, r.samples, _, rfl, rfl, rfl, rfl⟩

theorem exhausts_data : Exhausts data Data.args := by
  intro args d rest
  simp only [data, inverts_uint.bind, inverts_string.bind, inverts_skip.bind]
  constructor
  · rintro ⟨session, _, rfl, mime, _, rfl, arg, _, rfl, read⟩
    cases arg with
    | string text =>
      obtain ⟨rfl, read⟩ := finish_bind_iff.mp read
      cases read
      exact ⟨rfl, rfl⟩
    | blob bytes =>
      obtain ⟨rfl, read⟩ := finish_bind_iff.mp read
      cases read
      exact ⟨rfl, rfl⟩
    | _ => cases read
  · rintro ⟨rfl, rfl⟩
    rcases d with ⟨session, mime, text | bytes⟩
    · exact ⟨session, _, rfl, mime, _, rfl, .string text, _, rfl, rfl⟩
    · exact ⟨session, _, rfl, mime, _, rfl, .blob bytes, _, rfl, rfl⟩

/-! ## Loops -/

section

variable {scan : Scan α} {write : α → List Arg} {stop : List Arg → Prop} {goesOn : Arg → Bool}

theorem reads_times_succ (count : Nat) : (times goesOn scan (count + 1)).reads args =
    if args.head?.any goesOn then
      (do let a ← scan; let as ← times goesOn scan count; pure (a :: as) : Scan _).reads args
    else some ([], args) := by
  rw [times, reads_bind]
  have got : reads (get : Scan Cursor) args = some (⟨args⟩, args) := rfl
  rw [got, Option.bind_some]
  dsimp only
  split
  · rfl
  · rfl

/-- The rounds of a loop take the items one after the other. -/
theorem split_of_times (halts : Halts scan write stop)
    (begins : ∀ a, ∃ arg tail, write a = arg :: tail ∧ goesOn arg) {count : Nat} {as : List α}
    (enough : args.length ≤ count) (read : (times goesOn scan count).reads args = some (as, rest)) :
    args = as.flatMap write ++ rest ∧ rest.head?.any goesOn = false ∧ (as ≠ [] → stop rest) := by
  induction count generalizing args as with
  | zero =>
    obtain rfl := List.length_eq_zero_iff.mp (Nat.le_zero.mp enough)
    obtain ⟨rfl, rfl⟩ := reads_pure_iff.mp read
    simp
  | succ count ih =>
    rw [reads_times_succ] at read
    split at read
    · rw [halts.bind] at read
      simp only [reads_bind, Option.bind_eq_some_iff, Prod.exists, reads_pure_iff] at read
      obtain ⟨a, behind, rfl, stopped, as, _, read, rfl, rfl⟩ := read
      obtain ⟨arg, tail, starts, -⟩ := begins a
      rw [starts, List.length_append, List.length_cons] at enough
      obtain ⟨rfl, ends, later⟩ := ih (by omega) read
      refine ⟨by simp, ends, fun _ => ?_⟩
      cases as with
      | nil => exact stopped
      | cons => exact later (List.cons_ne_nil _ _)
    · next done =>
      cases read
      simpa using done

/-- The items are read again, as long as the loop ends behind them. -/
theorem times_flatMap (halts : Halts scan write stop)
    (begins : ∀ a, ∃ arg tail, write a = arg :: tail ∧ goesOn arg)
    (between : ∀ arg tail, goesOn arg → stop (arg :: tail)) {count : Nat} {as : List α}
    (enough : as.length ≤ count) (ends : rest.head?.any goesOn = false)
    (stopped : as ≠ [] → stop rest) :
    (times goesOn scan count).reads (as.flatMap write ++ rest) = some (as, rest) := by
  induction count generalizing as with
  | zero =>
    obtain rfl := List.length_eq_zero_iff.mp (Nat.le_zero.mp enough)
    rfl
  | succ count ih =>
    rw [reads_times_succ]
    cases as with
    | nil => rw [List.flatMap_nil, List.nil_append, ends, if_neg Bool.false_ne_true]
    | cons a as =>
      obtain ⟨arg, tail, starts, on⟩ := begins a
      have more : ((a :: as).flatMap write ++ rest).head?.any goesOn := by simp [starts, on]
      have last : stop rest := stopped (List.cons_ne_nil _ _)
      have stops : stop (as.flatMap write ++ rest) := by
        cases as with
        | nil => exact last
        | cons a' as =>
          obtain ⟨arg, tail, starts, on⟩ := begins a'
          rw [List.flatMap_cons, starts]
          exact between _ _ on
      rw [if_pos more, halts.bind]
      refine ⟨a, _, by simp, stops, ?_⟩
      rw [reads_bind, ih (Nat.le_of_succ_le_succ enough) fun _ => last]
      rfl

theorem repeatWhile_iff (halts : Halts scan write stop)
    (begins : ∀ a, ∃ arg tail, write a = arg :: tail ∧ goesOn arg)
    (between : ∀ arg tail, goesOn arg → stop (arg :: tail)) {as : List α} :
    (repeatWhile goesOn scan).reads args = some (as, rest) ↔
      args = as.flatMap write ++ rest ∧ rest.head?.any goesOn = false ∧ (as ≠ [] → stop rest) := by
  rw [repeatWhile, reads_bind, reads_remaining, Option.bind_some]
  constructor
  · exact split_of_times halts begins (Nat.le_refl _)
  · rintro ⟨rfl, ends, stopped⟩
    refine times_flatMap halts begins between ?_ ends stopped
    have some : ∀ a, write a ≠ [] := fun a none => by
      obtain ⟨arg, tail, starts, -⟩ := begins a
      rw [none] at starts
      cases starts
    rw [List.length_append]
    exact Nat.le_trans (length_le_flatMap some) (Nat.le_add_right ..)

/-- A loop up to the end of the arguments. -/
theorem exhausts_untilEmpty (inverts : Inverts scan write) (some : ∀ a, write a ≠ []) :
    Exhausts (untilEmpty scan) (·.flatMap write) := by
  intro args as rest
  rw [untilEmpty, repeatWhile_iff inverts.halts
    (fun a => (List.exists_cons_of_ne_nil (some a)).imp fun _ ⟨tail, starts⟩ => ⟨tail, starts, rfl⟩)
    fun _ _ _ => trivial]
  cases rest <;> simp

end

section

variable {read : Cursor → Option α × Cursor} {make : α → Arg}

theorem reads_mk (read : Cursor → Option α × Cursor) : reads (.mk read) args =
    match read ⟨args⟩ with
    | (some a, c) => some (a, c.rest)
    | (none, _) => none := rfl

theorem reads_repeated_succ (count : Nat) :
    reads (.mk (Cursor.repeated read (count + 1))) args =
      (reads (.mk read) args).bind fun first =>
        (reads (.mk (Cursor.repeated read count)) first.2).map fun others =>
          (first.1 :: others.1, others.2) := by
  simp only [reads_mk, Cursor.repeated]
  rcases read ⟨args⟩ with ⟨_ | a, c⟩
  · rfl
  · simp only [Option.bind_some]
    rcases Cursor.repeated read count c with ⟨_ | as, last⟩ <;> rfl

theorem repeated_iff (inverts : Inverts (.mk read) fun a => [make a]) {count : Nat} {as : List α} :
    reads (.mk (Cursor.repeated read count)) args = some (as, rest) ↔
      args = as.map make ++ rest ∧ as.length = count := by
  induction count generalizing args as with
  | zero =>
    have nothing : reads (.mk (Cursor.repeated read 0)) args = some ([], args) := rfl
    rw [nothing, List.length_eq_zero_iff]
    constructor
    · rintro ⟨⟩
      exact ⟨rfl, rfl⟩
    · rintro ⟨rfl, rfl⟩
      rfl
  | succ count ih =>
    rw [reads_repeated_succ, Option.bind_eq_some_iff]
    constructor
    · rintro ⟨⟨a, behind⟩, first, others⟩
      obtain ⟨⟨as, _⟩, later, same⟩ := Option.map_eq_some_iff.mp others
      cases same
      obtain rfl := (inverts _ _ _).mp first
      obtain ⟨rfl, length⟩ := ih.mp later
      exact ⟨rfl, congrArg (· + 1) length⟩
    · rintro ⟨rfl, length⟩
      cases as with
      | nil => cases length
      | cons a as =>
        refine ⟨(a, as.map make ++ rest), (inverts _ _ _).mpr rfl, ?_⟩
        rw [ih.mpr ⟨rfl, Nat.succ.inj length⟩]
        rfl

/-- As many as there are arguments. -/
theorem exhausts_repeated (inverts : Inverts (.mk read) fun a => [make a]) :
    Exhausts (.mk fun c => Cursor.repeated read c.remaining c) (·.map make) := by
  intro args as rest
  have same : reads (.mk fun c => Cursor.repeated read c.remaining c) args =
      reads (.mk (Cursor.repeated read args.length)) args := rfl
  rw [same, repeated_iff inverts]
  constructor
  · rintro ⟨split, length⟩
    have total := congrArg List.length split
    rw [List.length_append, List.length_map, length] at total
    obtain rfl := List.length_eq_zero_iff.mp (Nat.left_eq_add.mp total)
    exact ⟨split.trans (List.append_nil _), rfl⟩
  · rintro ⟨rfl, rfl⟩
    simp

end

theorem exhausts_restUints : Exhausts restUints Run.ofIds :=
  exhausts_repeated inverts_uint

theorem exhausts_restFloats : Exhausts restFloats Run.ofFloats :=
  exhausts_repeated inverts_float

/-! ## Messages with lists -/

theorem exhausts_control : Exhausts control Control.args := by
  intro args c rest
  simp only [control, inverts_uint.bind, exhausts_restFloats.bind, reads_pure_iff]
  constructor
  · rintro ⟨session, _, rfl, values, rfl, rfl, rfl⟩
    exact ⟨rfl, rfl⟩
  · rintro ⟨rfl, rfl⟩
    exact ⟨c.sessionId, _, rfl, c.values, rfl, rfl, rfl⟩

theorem exhausts_radii : Exhausts radii Radii.args := by
  intro args r rest
  simp only [radii, inverts_uint.bind, exhausts_restFloats.bind, reads_pure_iff]
  constructor
  · rintro ⟨session, _, rfl, radii, rfl, rfl, rfl⟩
    exact ⟨rfl, rfl⟩
  · rintro ⟨rfl, rfl⟩
    exact ⟨r.sessionId, _, rfl, r.radii, rfl, rfl, rfl⟩

theorem exhausts_signal : Exhausts signal Signal.args := by
  intro args s rest
  simp only [signal, inverts_uint.bind, exhausts_restUints.bind, reads_pure_iff]
  constructor
  · rintro ⟨session, _, rfl, component, _, rfl, targets, rfl, rfl, rfl⟩
    exact ⟨rfl, rfl⟩
  · rintro ⟨rfl, rfl⟩
    exact ⟨s.sessionId, _, rfl, s.componentId, _, rfl, s.targets, rfl, rfl, rfl⟩

theorem exhausts_container : Exhausts container Container.args := by
  intro args c rest
  simp only [container, inverts_uint.bind, exhausts_restUints.bind, reads_pure_iff]
  constructor
  · rintro ⟨session, _, rfl, slot, _, rfl, contained, rfl, rfl, rfl⟩
    exact ⟨rfl, rfl⟩
  · rintro ⟨rfl, rfl⟩
    exact ⟨c.sessionId, _, rfl, c.slot, _, rfl, c.contained, rfl, rfl, rfl⟩

theorem inverts_span :
    Inverts span fun s => [.float s.x, .float s.y, .float s.width] := by
  intro args s rest
  simp only [span, inverts_float.bind, reads_pure_iff]
  constructor
  · rintro ⟨x, _, rfl, y, _, rfl, width, _, rfl, rfl, rfl⟩
    rfl
  · rintro rfl
    exact ⟨s.x, _, rfl, s.y, _, rfl, s.width, _, rfl, rfl, rfl⟩

theorem exhausts_area : Exhausts area Area.args := by
  intro args a rest
  have spans := exhausts_untilEmpty inverts_span fun _ => List.cons_ne_nil _ _
  simp only [area, inverts_uint.bind, spans.bind, reads_pure_iff]
  constructor
  · rintro ⟨session, _, rfl, spans, rfl, rfl, rfl⟩
    exact ⟨rfl, rfl⟩
  · rintro ⟨rfl, rfl⟩
    exact ⟨a.sessionId, _, rfl, a.spans, rfl, rfl, rfl⟩

/-! ## Outlines and contours -/

/-- Points end where a separator begins. -/
theorem halts_points :
    Halts points Run.ofPoints fun rest => rest.head?.any isCoordinate = false := by
  intro args ps rest
  rw [points, repeatWhile_iff inverts_point2.halts (fun p => ⟨_, _, rfl, rfl⟩) fun _ _ _ => trivial]
  simp only [implies_true, and_true]
  rfl

theorem exhausts_outline : Exhausts outline Outline.args := by
  intro args o rest
  simp only [outline, inverts_uint.bind, halts_points.bind, finish_bind_iff, reads_pure_iff]
  constructor
  · rintro ⟨session, _, rfl, points, _, rfl, -, rfl, rfl, rfl⟩
    exact ⟨by simp [Outline.args, Run.ofPoints], rfl⟩
  · rintro ⟨rfl, rfl⟩
    exact ⟨o.sessionId, _, rfl, o.points, [], (List.append_nil _).symm, rfl, rfl, rfl, rfl⟩

/-- Where a separator is wanted, it is read, and nothing else. -/
theorem inverts_guard_separator : Inverts (do guard (← separator)) fun _ => [.bool true] := by
  intro args _ rest
  rw [separator_bind_iff, reads_guard, if_neg Bool.false_ne_true]
  constructor
  · rintro (⟨behind, rfl, read⟩ | ⟨-, read⟩)
    · cases read
      rfl
    · cases read
  · rintro rfl
    exact .inl ⟨rest, rfl, rfl⟩

/-- A separator and the points behind it. -/
theorem halts_contour : Halts contour (.bool true :: Run.ofPoints ·)
    fun rest => rest.head?.any isCoordinate = false := by
  intro args ps rest
  have split : contour = (do guard (← separator)) >>= fun _ => points := by
    rw [contour, bind_assoc]
  rw [split, inverts_guard_separator.bind]
  simp only [halts_points _ _ _]
  constructor
  · rintro ⟨_, _, rfl, rfl, stopped⟩
    exact ⟨rfl, stopped⟩
  · rintro ⟨rfl, stopped⟩
    exact ⟨(), _, rfl, rfl, stopped⟩

theorem others_iff {others : List (List Point2)} :
    (repeatWhile isSeparator contour).reads args = some (others, []) ↔
      args = others.flatMap (.bool true :: Run.ofPoints ·) := by
  rw [repeatWhile_iff halts_contour (fun _ => ⟨_, _, rfl, rfl⟩)]
  · simp
  · intro arg tail separates
    cases arg with
    | bool b => rfl
    | _ => cases separates

/-- The contours are found that the reader of the whole list finds. -/
theorem contours_iff {cs : List (List Point2)} :
    contours.reads args = some (cs, []) ↔ Run.contours? args = some cs := by
  rw [contours, isEmpty_bind]
  cases args with
  | nil => simp [reads_pure, Run.contours?]
  | cons arg args =>
    rw [List.isEmpty_cons, if_neg Bool.false_ne_true, halts_points.bind]
    constructor
    · rintro ⟨first, behind, split, -, read⟩
      rw [reads_bind, Option.bind_eq_some_iff] at read
      obtain ⟨⟨others, left⟩, read, same⟩ := read
      cases same
      rw [others_iff.mp read, ← Run.ofContours_cons] at split
      have notBlank : first :: others ≠ [[]] := fun blank => by
        rw [blank] at split
        cases split
      rw [split, Run.contours?_ofContours notBlank]
    · intro read
      have written := Run.ofContours_of_contours? read
      cases cs with
      | nil => cases written
      | cons first others =>
        rw [Run.ofContours_cons] at written
        refine ⟨first, _, written.symm, ?_, ?_⟩
        · cases others <;> rfl
        · rw [reads_bind, others_iff.mpr rfl]
          rfl

theorem agrees_innerContours : Agrees innerContours InnerContours.ofArgs? := by
  intro args i rest
  simp only [innerContours, inverts_uint.bind, bind_finish_iff, contours_iff]
  constructor
  · rintro ⟨session, behind, rfl, ⟨cs, found, rfl⟩, rfl⟩
    refine ⟨?_, rfl⟩
    show (Run.contours? behind).map _ = _
    rw [found, Option.map_some, UInt32.toUInt32_toInt32]
  · rintro ⟨read, rfl⟩
    unfold InnerContours.ofArgs? at read
    split at read
    · next session behind =>
      obtain ⟨cs, found, rfl⟩ := Option.map_eq_some_iff.mp read
      exact ⟨session.toUInt32, behind, int_cons .., ⟨cs, found, rfl⟩, rfl⟩
    · cases read

/-! ## Frames -/

theorem source_iff {f g : Frame} : (source f).reads args = some (g, rest) ↔
    ∃ application address instanceId dimension,
      args = .string application :: Run.ofIds [address, instanceId, dimension] ++ rest ∧
        { f with
          application, address, instanceId
          width := upperHalf dimension
          height := lowerHalf dimension } = g := by
  simp only [source, inverts_string.bind, inverts_uint.bind, reads_pure_iff]
  constructor
  · rintro ⟨application, _, rfl, address, _, rfl, instanceId, _, rfl, dimension, _, rfl, rfl, rfl⟩
    exact ⟨application, address, instanceId, dimension, rfl, rfl⟩
  · rintro ⟨application, address, instanceId, dimension, rfl, rfl⟩
    exact ⟨application, _, rfl, address, _, rfl, instanceId, _, rfl, dimension, _, rfl, rfl, rfl⟩

theorem agrees_frame : Agrees frame Frame.ofArgs? := by
  intro args f rest
  simp only [frame, inverts_uint.bind, inverts_time.bind, bind_finish_iff, described, isEmpty_bind]
  constructor
  · rintro ⟨id, _, rfl, t, behind, rfl, ⟨f, read, rfl⟩, rfl⟩
    refine ⟨?_, rfl⟩
    cases behind with
    | nil =>
      cases read
      simp [Frame.ofArgs?, Arg.ofId]
    | cons arg behind =>
      rw [List.isEmpty_cons, if_neg Bool.false_ne_true, source_iff] at read
      obtain ⟨application, address, instanceId, dimension, split, rfl⟩ := read
      rw [split]
      simp [Frame.ofArgs?, Run.ofIds, Arg.ofId]
  · rintro ⟨read, rfl⟩
    unfold Frame.ofArgs? at read
    split at read
    · next id t =>
      cases read
      exact ⟨id.toUInt32, _, int_cons .., t, [], rfl, ⟨_, rfl, rfl⟩, rfl⟩
    · next id t application address instanceId dimension =>
      cases read
      refine ⟨id.toUInt32, _, int_cons .., t, _, rfl, ⟨_, ?_, rfl⟩, rfl⟩
      rw [List.isEmpty_cons, if_neg Bool.false_ne_true, source_iff]
      refine ⟨application, address.toUInt32, instanceId.toUInt32, dimension.toUInt32, ?_, rfl⟩
      simp [Run.ofIds, Arg.ofId_toUInt32]
    · cases read

end Scan

end Tangible
