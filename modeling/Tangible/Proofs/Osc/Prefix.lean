import Tangible.Proofs.Osc.RoundTrip

/-!
# What a reader makes of a part of an input

A reader that succeeds on an input does the same on every longer input (`Steady`). So a message
that takes all of its bytes cannot be read from fewer of them (`Message.Exact.not_cut`), which
decides what becomes of an element that is too long for the word that counts its bytes: the
element is cut, and it and those behind it are lost.

What is read is limited, too, whatever packet it comes from: a decoded blob is shorter than 2 ^ 32
bytes, and a decoded text has no NUL (`Packet.given_of_decode`).

The first bytes of a bundle bring messages with the addresses of its elements, the last one excepted
(`Packet.address_of_decode_cut`), whatever can be read of the arguments.
-/

namespace Tangible.Osc

/-- The step reads the same from every longer input and leaves the bytes behind it alone. -/
def Steady {α : Type} (r : Read α) : Prop :=
  ∀ ⦃offset xs a after⦄, r ⟨offset, xs⟩ = .ok (a, after) →
    ∀ zs, r ⟨offset, xs ++ zs⟩ = .ok (a, ⟨after.offset, after.bytes ++ zs⟩)

/-- Whatever the step returns has the property. -/
def Gives {α : Type} (r : Read α) (p : α → Prop) : Prop :=
  ∀ ⦃before a after⦄, r before = .ok (a, after) → p a

namespace Read

variable {α β : Type} {r : Read α} {k : α → Read β}

theorem bind_eq_ok {before after : Input} {b : β} (both : (r >>= k) before = .ok (b, after)) :
    ∃ a between, r before = .ok (a, between) ∧ k a between = .ok (b, after) := by
  cases first : r before with
  | error e =>
    rw [bind_error first] at both
    simp at both
  | ok result =>
    obtain ⟨a, between⟩ := result
    rw [bind_ok first] at both
    exact ⟨a, between, rfl, both⟩

theorem pure_eq_ok {before after : Input} {a b : α}
    (returned : (Pure.pure a : Read α) before = .ok (b, after)) : a = b ∧ before = after := by
  have pair : (a, before) = (b, after) := Except.ok.inj returned
  exact ⟨congrArg Prod.fst pair, congrArg Prod.snd pair⟩

theorem throw_ne_ok {before after : Input} {a : α} {e : DecodeError} :
    (throw e : Read α) before ≠ .ok (a, after) :=
  nofun

end Read

/-! ## Longer inputs -/

namespace Steady

variable {α β : Type} {r : Read α} {k : α → Read β}

theorem pure (a : α) : Steady (Pure.pure a) := by
  intro offset xs b after returned zs
  obtain ⟨rfl, rfl⟩ := Read.pure_eq_ok returned
  rfl

theorem throw (e : DecodeError) : Steady (throw e : Read α) :=
  fun _ _ _ _ failed => absurd failed Read.throw_ne_ok

theorem bind (first : Steady r) (later : ∀ a, Steady (k a)) : Steady (r >>= k) := by
  intro offset xs b after both zs
  obtain ⟨a, between, one, two⟩ := Read.bind_eq_ok both
  exact (Read.bind_ok (first one zs)).trans (later a two zs)

theorem take (n : Nat) : Steady (Read.take n) := by
  intro offset xs taken after read zs
  simp only [Read.take] at read ⊢
  split at read
  · next full =>
    have inside : n ≤ xs.length := by
      rw [List.length_take] at full
      omega
    obtain ⟨rfl, rfl⟩ := Prod.mk.inj (Except.ok.inj read)
    rw [List.take_append_of_le_length inside, List.drop_append_of_le_length inside, if_pos full]
  · simp at read

theorem four : Steady Read.four := by
  intro offset xs quad after read zs
  simp only [Read.four] at read
  split at read
  · obtain ⟨rfl, rfl⟩ := Prod.mk.inj (Except.ok.inj read)
    rfl
  · simp at read

theorem word : Steady Read.word := four.bind fun _ => pure _

theorem wide : Steady Read.wide := word.bind fun _ => word.bind fun _ => pure _

theorem time : Steady Read.time := word.bind fun _ => word.bind fun _ => pure _

theorem padding : Steady Read.padding := by
  intro offset xs _ after read zs
  have skip : Steady ((fun _ => ()) <$> Read.take (textPadding offset)) := by
    rw [← bind_pure_comp]
    exact (take _).bind fun _ => pure _
  exact skip read zs

/-- The bytes of a text end at a NUL, or its padding is missing. -/
theorem text : Steady Read.text := by
  intro offset xs s after read zs
  obtain ⟨found, rest, cut, read⟩ := Read.bind_eq_ok read
  obtain ⟨_, behind, closed, checked⟩ := Read.bind_eq_ok read
  obtain ⟨rfl, rfl⟩ := Prod.mk.inj (Except.ok.inj cut)
  have ends : xs.dropWhile (fun b => decide (b ≠ 0)) ≠ [] := by
    intro none
    rw [none, Read.padding_missing] at closed
    simp at closed
  have cut' : Read.untilNul ⟨offset, xs ++ zs⟩ =
      .ok (xs.takeWhile (fun b => decide (b ≠ 0)),
        ⟨offset + (xs.takeWhile (fun b => decide (b ≠ 0))).length,
          xs.dropWhile (fun b => decide (b ≠ 0)) ++ zs⟩) := by
    have notAll : (xs.takeWhile (fun b => decide (b ≠ 0))).length ≠ xs.length := by
      have parts := congrArg List.length
        (List.takeWhile_append_dropWhile (p := fun b : UInt8 => decide (b ≠ 0)) (l := xs))
      have positive := List.length_pos_iff.mpr ends
      rw [List.length_append] at parts
      omega
    rw [Read.untilNul, List.takeWhile_append, List.dropWhile_append, if_neg notAll,
      if_neg (by simpa using ends)]
  -- the bytes of the text are the same, and so is what becomes of them
  cases parsed : text? (xs.takeWhile (fun b => decide (b ≠ 0))) with
  | none =>
    rw [parsed] at checked
    exact absurd checked Read.throw_ne_ok
  | some found =>
    rw [parsed] at checked
    refine (Read.bind_ok cut').trans ((Read.bind_ok (padding closed zs)).trans ?_)
    rw [parsed]
    exact pure found checked zs

theorem blob : Steady Read.blob :=
  word.bind fun _ => (take _).bind fun _ => padding.bind fun _ => pure _

theorem char : Steady Read.char := by
  refine word.bind fun value => ?_
  split
  · exact pure _
  · exact throw _

theorem arg (tag : Char) : Steady (Read.arg tag) := by
  unfold Read.arg
  split
  · exact word.bind fun _ => pure _
  · exact word.bind fun _ => pure _
  · exact text.bind fun _ => pure _
  · exact blob.bind fun _ => pure _
  · exact time.bind fun _ => pure _
  · exact wide.bind fun _ => pure _
  · exact wide.bind fun _ => pure _
  · exact char.bind fun _ => pure _
  · exact four.bind fun _ => pure _
  · exact four.bind fun _ => pure _
  · exact pure _
  · exact pure _
  · exact pure _
  · exact pure _
  · exact throw _

theorem args (tags : List Char) (current : List Arg) (before : List (List Arg)) :
    Steady (Read.args tags current before) := by
  fun_induction Read.args tags current before with
  | case1 => exact pure _
  | case2 _ _ _ ih => exact ih
  | case3 _ _ _ _ ih => exact ih
  | case4 => exact throw _
  | case5 tag _ _ _ _ _ _ ih => exact (arg tag).bind ih

theorem message (address : String) : Steady (Read.message address) := by
  refine text.bind fun tags => ?_
  split
  · exact pure _
  · exact (args _ _ _).bind fun _ => pure _

end Steady

/-! ## Elements that are cut -/

/-- The address and what follows it. -/
def Read.whole : Read Message := Read.text >>= Read.message

/-- The message takes all of its bytes, if it can be read at all. -/
def Message.Exact (m : Message) : Prop :=
  ∀ ⦃offset m' after⦄, 4 ∣ offset → Read.whole ⟨offset, m.encode⟩ = .ok (m', after) →
    after.bytes = []

theorem Message.whole_encode {m : Message} (portable : m.Portable) (short : AllShort m.args) :
    Reads Read.whole m.encode m := by
  rw [encode, List.append_assoc]
  exact (Read.reads_text portable.address_clean).bind (m.reads_body portable short)

theorem Message.exact_of_portable {m : Message} (portable : m.Portable) (short : AllShort m.args) :
    m.Exact := by
  intro offset m' after aligned read
  rw [(whole_encode portable short).run_all aligned] at read
  rw [← (Prod.mk.inj (Except.ok.inj read)).2]

/-- What was read is a message or a bundle, as its address says. -/
theorem Packet.read_eq_ok {depth : Nat} {input : Input} {packet : Packet}
    (read : Packet.read (depth + 1) input = .ok packet) :
    ∃ address between, Read.text input = .ok (address, between) ∧
      ((address.toList.head? = some '/' ∧ ∃ m after,
          Read.message address between = .ok (m, after) ∧ packet = .message m) ∨
        (address.toList.head? ≠ some '/' ∧ ∃ time after,
          Read.time between = .ok (time, after) ∧
            packet = .bundle time (okPrefix ((elements after.offset after.bytes).map
              (Packet.read depth))))) := by
  rw [Packet.read] at read
  split at read
  · simp at read
  · cases first : Read.text input with
    | error e => simp [StateT.run, first, bind, Except.bind] at read
    | ok pair =>
      obtain ⟨address, between⟩ := pair
      refine ⟨address, between, rfl, ?_⟩
      simp only [StateT.run, first, bind, Except.bind] at read
      split at read
      · next slash =>
        refine .inl ⟨slash, ?_⟩
        cases body : Read.message address between with
        | error e => simp [body] at read
        | ok pair =>
          obtain ⟨m, after⟩ := pair
          rw [body] at read
          exact ⟨m, after, rfl, (Except.ok.inj read).symm⟩
      · next noSlash =>
        refine .inr ⟨noSlash, ?_⟩
        split at read
        · cases tag : Read.time between with
          | error e => simp [tag] at read
          | ok pair =>
            obtain ⟨time, after⟩ := pair
            rw [tag] at read
            exact ⟨time, after, rfl, (Except.ok.inj read).symm⟩
        · simp at read

/-- The bytes that a message begins with are not a packet if they are not a message. -/
theorem Packet.read_fails {m : Message} (clean : '\x00' ∉ m.address.toList)
    (slash : m.address.toList.head? = some '/') {n offset : Nat} (aligned : 4 ∣ offset)
    (notMessage : ∀ m' after, Read.whole ⟨offset, m.encode.take n⟩ ≠ .ok (m', after))
    (depth : Nat) : ∃ e, Packet.read depth ⟨offset, m.encode.take n⟩ = .error e := by
  cases depth with
  | zero => exact ⟨_, rfl⟩
  | succ depth =>
    cases result : Packet.read (depth + 1) ⟨offset, m.encode.take n⟩ with
    | error e => exact ⟨e, rfl⟩
    | ok packet =>
      obtain ⟨address, between, first, rest⟩ := Packet.read_eq_ok result
      -- an address that is read from the front is the address of the whole message
      have grown := Steady.text first (m.encode.drop n)
      have front := (Read.reads_text clean).run offset
        (encodeText (String.ofList (',' :: wireTagsOf m.args)) ++ encodeArgs m.args) aligned
      rw [← List.append_assoc, ← Message.encode] at front
      rw [List.take_append_drop, front] at grown
      obtain ⟨rfl, _⟩ := Prod.mk.inj (Except.ok.inj grown)
      rcases rest with ⟨_, m', after, body, _⟩ | ⟨noSlash, _⟩
      · exact absurd ((Read.bind_ok first).trans body) (notMessage m' after)
      · exact absurd slash noSlash

/-- Some of the bytes of a message are not a message: read from all of them, it would leave the
others behind. -/
theorem Message.Exact.not_cut {m : Message} (exact : m.Exact) {n offset : Nat}
    (cut : n < m.encode.length) (aligned : 4 ∣ offset) (m' : Message) (after : Input) :
    Read.whole ⟨offset, m.encode.take n⟩ ≠ .ok (m', after) := by
  intro read
  have whole := (Steady.text.bind Steady.message) read (m.encode.drop n)
  rw [List.take_append_drop] at whole
  have none := List.append_eq_nil_iff.mp (exact aligned whole)
  have behind : 0 < (m.encode.drop n).length := by
    rw [List.length_drop]
    omega
  simp [none.2] at behind

/-- An element behind its length, when the word for the length is too small for it: the element is
cut, and the rest of its bytes are taken for more elements. -/
theorem elements_withLength_cut (bytes : List UInt8) (offset : Nat) (rest : List UInt8) :
    ∃ later, elements offset (withLength bytes ++ rest) =
      ⟨offset + 4, bytes.take (bytes.length % 2 ^ 32)⟩ :: later := by
  have size : (UInt32.ofNat bytes.length).toNat = bytes.length % 2 ^ 32 := UInt32.toNat_ofNat'
  have inside : bytes.length % 2 ^ 32 ≤ bytes.length := Nat.mod_le ..
  simp only [withLength, wordBytes, List.cons_append, List.nil_append]
  rw [elements, wordOfBytes_bytes, size, List.take_append_of_le_length inside,
    if_pos (by rw [List.length_take]; omega)]
  exact ⟨_, rfl⟩

/-- A message that cannot be read from its element takes those behind it along. -/
theorem Packet.decode_encode_cut {time : Timetag} {good : List Message} {bad : Message}
    (portable : ∀ m ∈ good, m.Portable) (small : ∀ m ∈ good, m.encode.length < 2 ^ 32)
    (unreadable : ∀ depth offset, 4 ∣ offset → ∃ e,
      Packet.read depth ⟨offset, bad.encode.take (bad.encode.length % 2 ^ 32)⟩ = .error e)
    (later : List Message) :
    Packet.decode (Packet.bundle time ((good ++ bad :: later).map .message)).encode =
      .ok (.bundle time (good.map .message)) := by
  obtain ⟨depth, eq⟩ := Packet.decode_bundle time ((good ++ bad :: later).map .message)
  have start : 4 ∣ 16 := by decide
  obtain ⟨next, aligned, cut⟩ := okPrefix_elements_append portable small depth start
    ((bad :: later).map .message)
  obtain ⟨e, failed⟩ := unreadable (depth + 1) (next + 4) (by omega)
  obtain ⟨others, split⟩ := elements_withLength_cut bad.encode next
    (encodeElements (later.map .message))
  rw [List.map_append] at eq ⊢
  rw [eq, cut, List.map_cons, encodeElements, Packet.encode, split, List.map_cons, failed,
    okPrefix, List.append_nil]
  simp

/-! ## What can be read -/

/-- An argument that a reader may give. -/
def Arg.Given : Arg → Prop
  | .blob bytes => bytes.length < 2 ^ 32
  | .string s => '\x00' ∉ s.toList
  | _ => True

def AllGiven (items : List Arg) : Prop := ∀ a ∈ items, a.Given

theorem AllGiven.append {items more : List Arg} (first : AllGiven items)
    (later : AllGiven more) : AllGiven (items ++ more) :=
  List.forall_mem_append.mpr ⟨first, later⟩

theorem Gives.bind {α β : Type} {r : Read α} {k : α → Read β} {p : α → Prop} {q : β → Prop}
    (first : Gives r p) (later : ∀ a, p a → Gives (k a) q) : Gives (r >>= k) q := by
  intro before b after both
  obtain ⟨a, between, one, two⟩ := Read.bind_eq_ok both
  exact later a (first one) two

theorem Gives.pure {α : Type} {p : α → Prop} {a : α} (holds : p a) : Gives (Pure.pure a) p := by
  intro before b after returned
  rwa [← (Read.pure_eq_ok returned).1]

theorem Gives.any {α : Type} (r : Read α) : Gives r fun _ => True :=
  fun _ _ _ _ => trivial

theorem gives_take (n : Nat) : Gives (Read.take n) (·.length = n) := by
  intro before taken after read
  simp only [Read.take] at read
  split at read
  · next full =>
    obtain ⟨rfl, rfl⟩ := Prod.mk.inj (Except.ok.inj read)
    exact full
  · simp at read

theorem gives_blob : Gives Read.blob (·.length < 2 ^ 32) := by
  refine (Gives.any _).bind fun word _ => (gives_take _).bind fun bytes length =>
    (Gives.any _).bind fun _ _ => Gives.pure ?_
  rw [length]
  exact word.toNat_lt

theorem textBytes_of_text? {bytes : List UInt8} {s : String} (read : text? bytes = some s) :
    textBytes s = bytes := by
  simp only [text?, String.fromUTF8?] at read
  split at read
  · rw [← Option.some.inj read]
    rfl
  · simp at read

theorem gives_text : Gives Read.text fun s => '\x00' ∉ s.toList := by
  have clean : Gives Read.untilNul (0 ∉ ·) := by
    intro before found after read
    obtain ⟨rfl, _⟩ := Prod.mk.inj (Except.ok.inj read)
    intro zero
    simpa using List.all_eq_true.mp List.all_takeWhile 0 zero
  refine clean.bind fun bytes nonzero => (Gives.any _).bind fun _ _ => ?_
  split
  · next s read =>
    refine Gives.pure fun nul => nonzero ?_
    rw [← textBytes_of_text? read, textBytes_eq_flatMap, List.mem_flatMap]
    exact ⟨_, nul, by decide⟩
  · exact fun _ _ _ failed => absurd failed Read.throw_ne_ok

theorem gives_arg (tag : Char) : Gives (Read.arg tag) Arg.Given := by
  unfold Read.arg
  split
  case h_3 => exact gives_text.bind fun _ clean => Gives.pure clean
  case h_4 => exact gives_blob.bind fun _ short => Gives.pure short
  case h_15 => exact fun _ _ _ failed => absurd failed Read.throw_ne_ok
  all_goals
    first
    | exact Gives.pure trivial
    | exact (Gives.any _).bind fun _ _ => Gives.pure trivial

theorem gives_args (tags : List Char) (current : List Arg) (before : List (List Arg))
    (given : AllGiven current) (waiting : ∀ items ∈ before, AllGiven items) :
    Gives (Read.args tags current before) AllGiven := by
  fun_induction Read.args tags current before with
  | case1 => exact Gives.pure given
  | case2 _ _ _ ih =>
    refine ih (by simp [AllGiven]) fun items mem => ?_
    rcases List.mem_cons.mp mem with rfl | later
    · exact given
    · exact waiting items later
  | case3 _ _ outer _ ih =>
    refine ih ((waiting outer (List.mem_cons_self ..)).append
      (List.forall_mem_singleton.mpr trivial)) ?_
    exact fun items mem => waiting items (List.mem_cons_of_mem _ mem)
  | case4 => exact fun _ _ _ failed => absurd failed Read.throw_ne_ok
  | case5 tag _ _ _ _ _ _ ih =>
    exact (gives_arg tag).bind fun value here =>
      ih value (given.append (List.forall_mem_singleton.mpr here)) waiting

theorem gives_message (address : String) :
    Gives (Read.message address) fun m => AllGiven m.args := by
  refine (Gives.any _).bind fun tags _ => ?_
  split
  · exact Gives.pure (by simp [AllGiven])
  · exact (gives_args _ _ _ (by simp [AllGiven]) (by simp)).bind fun _ given => Gives.pure given

theorem mem_okPrefix {ε α : Type} {results : List (Except ε α)} {a : α}
    (mem : a ∈ okPrefix results) : .ok a ∈ results := by
  fun_induction okPrefix results with
  | case1 b rest ih =>
    rcases List.mem_cons.mp mem with rfl | later
    · exact List.mem_cons_self ..
    · exact List.mem_cons_of_mem _ (ih later)
  | case2 => simp at mem

theorem mem_messagesOf {m : Message} {content : List Packet} (mem : m ∈ messagesOf content) :
    ∃ packet ∈ content, m ∈ packet.messages := by
  induction content with
  | nil => simp [messagesOf] at mem
  | cons packet rest ih =>
    rw [messagesOf, List.mem_append] at mem
    rcases mem with here | later
    · exact ⟨packet, List.mem_cons_self .., here⟩
    · obtain ⟨packet', inside, found⟩ := ih later
      exact ⟨packet', List.mem_cons_of_mem _ inside, found⟩

/-- No packet brings anything else. -/
theorem Packet.given_of_read {depth : Nat} {input : Input} {packet : Packet}
    (read : Packet.read depth input = .ok packet) : ∀ m ∈ packet.messages, AllGiven m.args := by
  induction depth generalizing input packet with
  | zero => simp [Packet.read] at read
  | succ depth ih =>
    obtain ⟨_, _, _, ⟨_, m, _, body, rfl⟩ | ⟨_, _, _, _, rfl⟩⟩ := Packet.read_eq_ok read
    · intro m' mem
      rw [Packet.messages, List.mem_singleton] at mem
      exact mem ▸ gives_message _ body
    · intro m mem
      rw [Packet.messages] at mem
      obtain ⟨packet, inside, found⟩ := mem_messagesOf mem
      obtain ⟨element, _, result⟩ := List.mem_map.mp (mem_okPrefix inside)
      exact ih result m found

theorem Packet.given_of_decode {bytes : List UInt8} {packet : Packet}
    (read : Packet.decode bytes = .ok packet) : ∀ m ∈ packet.messages, AllGiven m.args :=
  Packet.given_of_read read

/-! ## Bundles that are cut -/

/-- Where a text stands matters to its padding alone. -/
theorem Read.eq_of_text {s s' : String} (clean : '\x00' ∉ s.toList) {offset : Nat}
    {rest : List UInt8} {after : Input}
    (read : Read.text ⟨offset, encodeText s ++ rest⟩ = .ok (s', after)) : s' = s := by
  obtain ⟨n, _, padded⟩ := encodeText_eq s
  rw [padded, List.append_assoc, List.cons_append] at read
  obtain ⟨found, between, cut, read⟩ := bind_eq_ok read
  obtain ⟨_, _, _, checked⟩ := bind_eq_ok read
  rw [untilNul_append (zero_notMem_textBytes clean)] at cut
  obtain ⟨rfl, rfl⟩ := Prod.mk.inj (Except.ok.inj cut)
  rw [text?_textBytes] at checked
  exact (pure_eq_ok checked).1.symm

theorem gives_message_address (address : String) :
    Gives (Read.message address) (·.address = address) := by
  refine (Gives.any _).bind fun tags _ => ?_
  split
  · exact Gives.pure rfl
  · exact (Gives.any _).bind fun _ _ => Gives.pure rfl

/-- Whatever is read from the bytes of a message is a message of the same address. -/
theorem Packet.address_of_read {m : Message} (clean : '\x00' ∉ m.address.toList)
    (slash : m.address.toList.head? = some '/') {depth offset : Nat} {packet : Packet}
    (read : Packet.read depth ⟨offset, m.encode⟩ = .ok packet) :
    ∃ m', packet = .message m' ∧ m'.address = m.address := by
  cases depth with
  | zero => simp [Packet.read] at read
  | succ depth =>
    obtain ⟨address, between, first, rest⟩ := Packet.read_eq_ok read
    rw [Message.encode, List.append_assoc] at first
    obtain rfl := Read.eq_of_text clean first
    rcases rest with ⟨_, m', after, body, rfl⟩ | ⟨noSlash, _⟩
    · exact ⟨m', rfl, gives_message_address _ body⟩
    · exact absurd slash noSlash

/-- An element that is cut is none. -/
theorem elements_cut {bytes pre rest : List UInt8} (small : bytes.length < 2 ^ 32)
    (split : pre ++ rest = withLength bytes) (cut : rest ≠ []) (offset : Nat) :
    elements offset pre = [] := by
  have size : (UInt32.ofNat bytes.length).toNat = bytes.length :=
    UInt32.toNat_ofNat_of_lt' small
  rw [elements.eq_def]
  split
  · next a b c d body =>
    simp only [withLength, wordBytes, List.cons_append, List.nil_append, List.cons.injEq] at split
    obtain ⟨rfl, rfl, rfl, rfl, body⟩ := split
    have missing := List.length_pos_iff.mpr cut
    have short := congrArg List.length body
    rw [List.length_append] at short
    simp only [wordOfBytes_bytes, size]
    rw [if_neg]
    rw [List.length_take]
    omega
  · rfl

/-- The elements that are left of a bundle are whole, and the last one is not among them. -/
theorem mem_elements_cut {ms : List Message} (small : ∀ m ∈ ms, m.encode.length < 2 ^ 32)
    {offset : Nat} {pre rest : List UInt8}
    (split : pre ++ rest = encodeElements (ms.map .message)) (cut : rest ≠ []) {element : Input}
    (mem : element ∈ elements offset pre) : ∃ m ∈ ms.dropLast, element.bytes = m.encode := by
  induction ms generalizing offset pre with
  | nil =>
    rw [List.map_nil, encodeElements, List.append_eq_nil_iff] at split
    exact absurd split.2 cut
  | cons m ms ih =>
    rw [List.forall_mem_cons] at small
    rw [List.map_cons, encodeElements, Packet.encode] at split
    by_cases inside : ∃ missing, pre ++ missing = withLength m.encode ∧ missing ≠ []
    · obtain ⟨missing, split', cut'⟩ := inside
      simp [elements_cut small.1 split' cut'] at mem
    · obtain ⟨pre', rfl, split'⟩ : ∃ pre', pre = withLength m.encode ++ pre' ∧
          pre' ++ rest = encodeElements (ms.map .message) := by
        rcases List.append_eq_append_iff.mp split with ⟨missing, whole, split'⟩ | ⟨pre', rfl, split'⟩
        · have none : missing = [] := by
            by_contra cut'
            exact inside ⟨missing, whole.symm, cut'⟩
          rw [none] at whole split'
          exact ⟨[], by simpa using whole.symm, by simpa using split'⟩
        · exact ⟨pre', rfl, split'.symm⟩
      have more : ms ≠ [] := by
        rintro rfl
        rw [List.map_nil, encodeElements, List.append_eq_nil_iff] at split'
        exact cut split'.2
      rw [List.dropLast_cons_of_ne_nil more]
      rw [elements_withLength small.1] at mem
      rcases List.mem_cons.mp mem with rfl | later
      · exact ⟨m, List.mem_cons_self .., rfl⟩
      · obtain ⟨m', inside', bytes⟩ := ih small.2 split' later
        exact ⟨m', List.mem_cons_of_mem _ inside', bytes⟩

/-- The first bytes of a bundle, if they are a packet at all, are a bundle with the same time and
the first bytes of the elements. -/
theorem Packet.decode_cut {time : Timetag} {content : List Packet} {pre rest : List UInt8}
    (split : pre ++ rest = (Packet.bundle time content).encode) {packet : Packet}
    (decoded : Packet.decode pre = .ok packet) :
    ∃ depth front, front ++ rest = encodeElements content ∧
      packet = .bundle time (okPrefix ((elements 16 front).map (Packet.read depth))) := by
  obtain ⟨address, between, first, branch⟩ := Packet.read_eq_ok decoded
  have marker := Steady.text first rest
  have marker' := (Read.reads_text (s := bundleMarker) (by decide)).run 0
    (encodeTime time ++ encodeElements content) (by simp)
  rw [split, Packet.encode, List.append_assoc, marker', encodeText_bundleMarker_length] at marker
  obtain ⟨rfl, behind⟩ := Prod.mk.inj (Except.ok.inj marker)
  obtain ⟨start, bytes⟩ := Input.mk.inj behind
  rcases branch with ⟨slash, _⟩ | ⟨_, time', after, tag, rfl⟩
  · exact absurd slash (by decide)
  · have tag' := Steady.time tag rest
    rw [← start, ← bytes, (Read.reads_time time).run _ _ (by decide)] at tag'
    obtain ⟨rfl, behind⟩ := Prod.mk.inj (Except.ok.inj tag')
    obtain ⟨start', bytes'⟩ := Input.mk.inj behind
    exact ⟨pre.length, after.bytes, bytes'.symm, by rw [← start']; rfl⟩

/-- They bring messages with the addresses of all elements but the last. -/
theorem Packet.address_of_decode_cut {time : Timetag} {ms : List Message}
    (clean : ∀ m ∈ ms, '\x00' ∉ m.address.toList)
    (slash : ∀ m ∈ ms, m.address.toList.head? = some '/')
    (small : ∀ m ∈ ms, m.encode.length < 2 ^ 32) {pre rest : List UInt8}
    (split : pre ++ rest = (Packet.bundle time (ms.map .message)).encode) (cut : rest ≠ [])
    {packet : Packet} (decoded : Packet.decode pre = .ok packet) {m : Message}
    (mem : m ∈ packet.messages) : ∃ m' ∈ ms.dropLast, m.address = m'.address := by
  obtain ⟨depth, front, split', rfl⟩ := Packet.decode_cut split decoded
  rw [Packet.messages] at mem
  obtain ⟨packet, inside, found⟩ := mem_messagesOf mem
  obtain ⟨⟨offset, bytes⟩, listed, read⟩ := List.mem_map.mp (mem_okPrefix inside)
  obtain ⟨m', among, rfl⟩ := mem_elements_cut small split' cut listed
  have there := List.mem_of_mem_dropLast among
  obtain ⟨m'', rfl, same⟩ := Packet.address_of_read (clean m' there) (slash m' there) read
  rw [Packet.messages, List.mem_singleton] at found
  exact ⟨m', among, found ▸ same⟩

end Tangible.Osc
