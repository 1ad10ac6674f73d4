import Mathlib
import Tangible.Proofs.Osc.Reads

/-!
# Packets survive the wire

`Portable` singles out the arguments that the wire carries unchanged: texts without NUL, and blobs
whose length is not a multiple of four. `Message.read_encode` reads a message of portable
arguments back from an element of a bundle, and `Packet.decode_encode_bundle` reads back a bundle
of such messages. The offset at which an element stands matters to the padding alone, and every
element stands at a multiple of four.
-/

namespace Tangible.Osc

mutual

/-- Whether an argument survives the wire. -/
def Arg.Portable : Arg → Prop
  | .string s => '\x00' ∉ s.toList
  | .blob bytes => ¬ 4 ∣ bytes.length
  | .array items => AllPortable items
  | _ => True

def AllPortable : List Arg → Prop
  | [] => True
  | arg :: rest => arg.Portable ∧ AllPortable rest

end

theorem allPortable_iff {args : List Arg} : AllPortable args ↔ ∀ arg ∈ args, arg.Portable := by
  induction args with
  | nil => simp [AllPortable]
  | cons arg rest ih => simp [AllPortable, ih]

mutual

/-- Whether the word before a blob holds its length. -/
def Arg.Short : Arg → Prop
  | .blob bytes => bytes.length < 2 ^ 32
  | .array items => AllShort items
  | _ => True

def AllShort : List Arg → Prop
  | [] => True
  | arg :: rest => arg.Short ∧ AllShort rest

end

theorem allShort_iff {args : List Arg} : AllShort args ↔ ∀ arg ∈ args, arg.Short := by
  induction args with
  | nil => simp [AllShort]
  | cons arg rest ih => simp [AllShort, ih]

mutual

theorem Arg.short_of_encode (a : Arg) (small : a.encode.length < 2 ^ 32) : a.Short := by
  cases a with
  | blob bytes =>
    simp only [Arg.encode, encodeBlob, List.length_append] at small
    simp only [Arg.Short]
    omega
  | array items => exact allShort_of_encode items small
  | _ => trivial

theorem allShort_of_encode (items : List Arg) (small : (encodeArgs items).length < 2 ^ 32) :
    AllShort items := by
  cases items with
  | nil => trivial
  | cons a items =>
    rw [encodeArgs, List.length_append] at small
    exact ⟨a.short_of_encode (by omega), allShort_of_encode items (by omega)⟩

end

/-- A message that survives the wire. -/
structure Message.Portable (m : Message) : Prop where
  address_clean : '\x00' ∉ m.address.toList
  address_slash : m.address.toList.head? = some '/'
  args : ∀ arg ∈ m.args, arg.Portable

/-! ## Arguments -/

namespace Read

theorem args_tag {tag : Char} (opens : tag ≠ '[') (closes : tag ≠ ']') (tags : List Char)
    (current : List Arg) (before : List (List Arg)) :
    args (tag :: tags) current before =
      arg tag >>= fun value => args tags (current ++ [value]) before := by
  rw [args]
  · exact opens
  all_goals intros; contradiction

/-- The argument is one tag and its data. -/
theorem reads_arg (a : Arg) (flat : ∀ items, a ≠ .array items) (portable : a.Portable)
    (short : a.Short) : Reads (arg a.tag) a.encode a := by
  cases a with
  | int v => exact (reads_word _).result (by simp)
  | float v => exact (reads_word _).result rfl
  | string s => exact (reads_text portable).result rfl
  | blob bytes => exact (reads_blob portable short).result rfl
  | time t => exact (reads_time t).result rfl
  | long v => exact (reads_wide _).result (by simp)
  | double v => exact (reads_wide _).result rfl
  | char c => exact (reads_char c).result rfl
  | color r g b a => exact (reads_four r g b a).result rfl
  | midi port status data1 data2 => exact (reads_four port status data1 data2).result rfl
  | bool value => cases value <;> exact Reads.pure _
  | array items => exact absurd rfl (flat items)
  | nil => exact Reads.pure _
  | infinitum => exact Reads.pure _

theorem wireTags_flat {a : Arg} (flat : ∀ items, a ≠ .array items) :
    a.wireTags = [a.tag] ∧ a.tag ≠ '[' ∧ a.tag ≠ ']' := by
  cases a with
  | array items => exact absurd rfl (flat items)
  | bool value => cases value <;> simp [Arg.wireTags, Arg.tag]
  | _ => simp [Arg.wireTags, Arg.tag]

theorem reads_args_flat (a : Arg) (flat : ∀ items, a ≠ .array items) (portable : a.Portable)
    (short : a.Short) {tags : List Char} {current : List Arg}
    {before : List (List Arg)} {bytes : List UInt8} {result : List Arg}
    (rest : Reads (args tags (current ++ [a]) before) bytes result) :
    Reads (args (a.wireTags ++ tags) current before) (a.encode ++ bytes) result := by
  obtain ⟨single, opens, closes⟩ := wireTags_flat flat
  rw [single, List.singleton_append, args_tag opens closes]
  exact Reads.bind (k := fun value => args tags (current ++ [value]) before)
    (reads_arg a flat portable short) rest

mutual

/-- The tags and the data of an argument in front of those of others. An array is read as the
arguments between its brackets, while those in front of it wait. -/
theorem reads_args_cons (a : Arg) (portable : a.Portable) (short : a.Short)
    {tags : List Char} {current : List Arg} {before : List (List Arg)} {bytes : List UInt8}
    {result : List Arg} (rest : Reads (args tags (current ++ [a]) before) bytes result) :
    Reads (args (a.wireTags ++ tags) current before) (a.encode ++ bytes) result := by
  cases a with
  | array items =>
    -- the tags of the array end with its closing bracket, where the items become one argument
    have inner : Reads (args (']' :: tags) ([] ++ items) (current :: before)) bytes result := by
      rw [args]
      exact rest
    have whole := reads_args_append items portable short inner
    simp only [Arg.wireTags, List.cons_append, List.append_assoc, List.nil_append]
    rw [args]
    exact whole
  | _ => exact reads_args_flat _ (by simp) portable short rest

theorem reads_args_append (items : List Arg) (portable : AllPortable items)
    (short : AllShort items) {tags : List Char} {current : List Arg}
    {before : List (List Arg)} {bytes : List UInt8} {result : List Arg}
    (rest : Reads (args tags (current ++ items) before) bytes result) :
    Reads (args (wireTagsOf items ++ tags) current before) (encodeArgs items ++ bytes) result := by
  cases items with
  | nil => simpa [wireTagsOf, encodeArgs] using rest
  | cons a items =>
    have later : Reads (args tags (current ++ [a] ++ items) before) bytes result := by
      simpa using rest
    rw [wireTagsOf, encodeArgs, List.append_assoc, List.append_assoc]
    exact reads_args_cons a portable.1 short.1
      (reads_args_append items portable.2 short.2 later)

end

theorem reads_args {items : List Arg} (portable : AllPortable items) (short : AllShort items) :
    Reads (args (wireTagsOf items) [] []) (encodeArgs items) items := by
  have last : Reads (args [] ([] ++ items) []) [] items := by
    rw [args]
    exact Reads.pure items
  simpa using reads_args_append items portable short last

end Read

/-! ## Messages -/

mutual

theorem nul_notMem_wireTags (a : Arg) : '\x00' ∉ a.wireTags := by
  cases a with
  | array items => simpa [Arg.wireTags] using nul_notMem_wireTagsOf items
  | bool value => cases value <;> simp [Arg.wireTags, Arg.tag]
  | _ => simp [Arg.wireTags, Arg.tag]

theorem nul_notMem_wireTagsOf (items : List Arg) : '\x00' ∉ wireTagsOf items := by
  cases items with
  | nil => simp [wireTagsOf]
  | cons a items =>
    simpa [wireTagsOf] using ⟨nul_notMem_wireTags a, nul_notMem_wireTagsOf items⟩

end

theorem wireTags_ne_nil (a : Arg) : a.wireTags ≠ [] := by
  cases a <;> simp [Arg.wireTags]

theorem wireTagsOf_eq_flatMap (items : List Arg) : wireTagsOf items = items.flatMap Arg.wireTags := by
  induction items with
  | nil => rfl
  | cons a items ih => rw [wireTagsOf, ih, List.flatMap_cons]

/-- A tag string of one byte is the comma alone. -/
theorem tagString_short_iff (tags : List Char) :
    (String.ofList (',' :: tags)).utf8ByteSize ≤ 1 ↔ tags = [] := by
  have comma : (String.singleton ',').utf8ByteSize = 1 := by
    rw [String.utf8ByteSize_singleton]
    decide
  rw [String.ofList_cons, String.utf8ByteSize_append, comma]
  constructor
  · intro h
    have empty := String.utf8ByteSize_eq_zero_iff.mp (by omega : (String.ofList tags).utf8ByteSize = 0)
    simpa using congrArg String.toList empty
  · rintro rfl
    simp

theorem Message.allShort {m : Message} (small : m.encode.length < 2 ^ 32) : AllShort m.args := by
  rw [Message.encode, List.length_append] at small
  exact allShort_of_encode m.args (by omega)

theorem Message.reads_body {m : Message} (portable : m.Portable) (short : AllShort m.args) :
    Reads (Read.message m.address)
      (encodeText (String.ofList (',' :: wireTagsOf m.args)) ++ encodeArgs m.args) m := by
  have clean : '\x00' ∉ (String.ofList (',' :: wireTagsOf m.args)).toList := by
    simpa using nul_notMem_wireTagsOf m.args
  refine (Read.reads_text clean).bind ?_
  by_cases bare : wireTagsOf m.args = []
  · have none : m.args = [] := by
      cases h : m.args with
      | nil => rfl
      | cons a rest =>
        rw [h, wireTagsOf] at bare
        exact absurd (List.append_eq_nil_iff.mp bare).1 (wireTags_ne_nil a)
    rw [if_pos ((tagString_short_iff _).mpr bare), none]
    have same : m = ⟨m.address, []⟩ := by rw [← none]
    rw [same]
    exact Reads.pure _
  · rw [if_neg (mt (tagString_short_iff _).mp bare), String.toList_ofList]
    exact (Read.reads_args (allPortable_iff.mpr portable.args) short).result rfl

/-- A message that stands alone, as a packet or as an element of a bundle. -/
theorem Message.read_encode {m : Message} (portable : m.Portable)
    (small : m.encode.length < 2 ^ 32) {offset : Nat} (aligned : 4 ∣ offset) (depth : Nat) :
    Packet.read (depth + 1) ⟨offset, m.encode⟩ = .ok (.message m) := by
  have address := Read.reads_text portable.address_clean
  have body := m.reads_body portable (m.allShort small)
  have start := address.run offset (encodeText (String.ofList (',' :: wireTagsOf m.args)) ++
    encodeArgs m.args) aligned
  have rest := body.run_all (Nat.dvd_add aligned address.aligned)
  have nonempty : m.encode.isEmpty = false := by
    have padded : 0 < (encodeText m.address).length := by
      simp only [encodeText, textPadding, List.length_append, List.length_replicate]
      omega
    rw [List.isEmpty_eq_false_iff, ← List.length_pos_iff, Message.encode]
    simp only [List.length_append]
    omega
  rw [Packet.read, nonempty, Message.encode, List.append_assoc]
  simp only [StateT.run, start, Bool.false_eq_true, if_false, bind, Except.bind,
    portable.address_slash, if_true]
  rw [rest]
  rfl

/-- Every argument shows in the tag string at least. -/
theorem Message.args_length_le (m : Message) : m.args.length ≤ m.encode.length := by
  have tagged := length_le_flatMap (l := m.args) wireTags_ne_nil
  have written := length_le_flatMap (l := ',' :: wireTagsOf m.args) (r := String.utf8EncodeChar)
    fun c => List.length_pos_iff.mp (by simp [Char.utf8Size_pos])
  rw [← wireTagsOf_eq_flatMap] at tagged
  simp only [encode, encodeText, textBytes_eq_flatMap, String.toList_ofList, List.length_append,
    List.length_cons] at written ⊢
  omega

/-! ## Bundles -/

theorem Packet.messages_bundle (time : Timetag) (ms : List Message) :
    (Packet.bundle time (ms.map .message)).messages = ms := by
  have all : messagesOf (ms.map .message) = ms := by
    induction ms with
    | nil => rfl
    | cons m ms ih => simp [messagesOf, Packet.messages, ih]
  rw [Packet.messages, all]

/-- An element is shorter than its bundle. -/
theorem Packet.encode_length_lt {time : Timetag} {ms : List Message} {m : Message} (mem : m ∈ ms) :
    m.encode.length < (Packet.bundle time (ms.map .message)).encode.length := by
  have inside : m.encode.length < (encodeElements (ms.map .message)).length := by
    induction ms with
    | nil => simp at mem
    | cons m' ms ih =>
      simp only [List.map_cons, encodeElements, withLength, Packet.encode, List.length_append,
        wordBytes_length]
      rcases List.mem_cons.mp mem with rfl | later
      · omega
      · have := ih later
        omega
  simp only [Packet.encode, List.length_append]
  omega

theorem elements_withLength {bytes : List UInt8} (small : bytes.length < 2 ^ 32) (offset : Nat)
    (rest : List UInt8) :
    elements offset (withLength bytes ++ rest) =
      ⟨offset + 4, bytes⟩ :: elements (offset + 4 + bytes.length) rest := by
  have size : (UInt32.ofNat bytes.length).toNat = bytes.length :=
    UInt32.toNat_ofNat_of_lt' small
  simp only [withLength, wordBytes, List.cons_append, List.nil_append]
  rw [elements, wordOfBytes_bytes, size]
  simp

/-- The elements of a bundle up to the first that cannot be read. -/
theorem okPrefix_elements_append {good : List Message} (portable : ∀ m ∈ good, m.Portable)
    (small : ∀ m ∈ good, m.encode.length < 2 ^ 32) (depth : Nat) {offset : Nat}
    (aligned : 4 ∣ offset) (later : List Packet) :
    ∃ next, 4 ∣ next ∧
      okPrefix ((elements offset (encodeElements (good.map .message ++ later))).map
          (Packet.read (depth + 1))) =
        good.map .message ++
          okPrefix ((elements next (encodeElements later)).map (Packet.read (depth + 1))) := by
  induction good generalizing offset with
  | nil => exact ⟨offset, aligned, rfl⟩
  | cons m good ih =>
    have here := portable m (by simp)
    have fits := small m (by simp)
    have whole : 4 ∣ m.encode.length := by
      have body := (Read.reads_text here.address_clean).bind (k := Read.message)
        (m.reads_body here (m.allShort fits))
      rw [Message.encode, List.append_assoc]
      exact body.aligned
    have behind : 4 ∣ offset + 4 + m.encode.length := by omega
    obtain ⟨next, start, eq⟩ := ih (fun m' h => portable m' (by simp [h]))
      (fun m' h => small m' (by simp [h])) behind
    refine ⟨next, start, ?_⟩
    rw [List.map_cons, List.cons_append, encodeElements, Packet.encode,
      elements_withLength fits, List.map_cons,
      m.read_encode here fits (by omega) depth, okPrefix, eq]
    rfl

theorem okPrefix_elements {ms : List Message} (portable : ∀ m ∈ ms, m.Portable)
    (small : ∀ m ∈ ms, m.encode.length < 2 ^ 32) (depth : Nat) {offset : Nat}
    (aligned : 4 ∣ offset) :
    okPrefix ((elements offset (encodeElements (ms.map .message))).map
      (Packet.read (depth + 1))) = ms.map .message := by
  obtain ⟨next, _, eq⟩ := okPrefix_elements_append portable small depth aligned []
  rw [List.append_nil] at eq
  rw [eq, encodeElements, elements]
  · simp [okPrefix]
  · simp

theorem encodeText_bundleMarker_length : (encodeText bundleMarker).length = 8 := by
  have size : (textBytes bundleMarker).length = 7 := by decide +kernel
  rw [encodeText, List.length_append, List.length_replicate, size]
  rfl

/-- Of the elements of a bundle exactly those before the first unreadable one are decoded. -/
theorem Packet.decode_bundle (time : Timetag) (content : List Packet) :
    ∃ depth, Packet.decode (Packet.bundle time content).encode =
      .ok (.bundle time (okPrefix ((elements 16 (encodeElements content)).map
        (Packet.read (depth + 1))))) := by
  have marker := (Read.reads_text (s := bundleMarker) (by decide)).run 0
    (encodeTime time ++ encodeElements content) (by simp)
  have tag := (Read.reads_time time).run 8 (encodeElements content) (by decide)
  rw [encodeText_bundleMarker_length, Nat.zero_add] at marker
  have length : (Packet.bundle time content).encode.length =
      (15 + (encodeElements content).length) + 1 := by
    simp only [Packet.encode, List.length_append, encodeText_bundleMarker_length, encodeTime,
      wordBytes_length]
    omega
  have nonempty : (Packet.bundle time content).encode.isEmpty = false := by
    rw [List.isEmpty_eq_false_iff, ← List.length_pos_iff, length]
    omega
  refine ⟨15 + (encodeElements content).length, ?_⟩
  rw [Packet.decode, length, Packet.read, nonempty, Packet.encode, List.append_assoc]
  simp only [StateT.run, marker, Bool.false_eq_true, if_false, bind, Except.bind]
  rw [if_neg (by decide), if_pos (by rfl), tag]
  rfl

/-- A bundle of portable messages comes back as it was sent. -/
theorem Packet.decode_encode_bundle {time : Timetag} {ms : List Message}
    (portable : ∀ m ∈ ms, m.Portable) (small : ∀ m ∈ ms, m.encode.length < 2 ^ 32) :
    Packet.decode (Packet.bundle time (ms.map .message)).encode =
      .ok (.bundle time (ms.map .message)) := by
  obtain ⟨depth, eq⟩ := Packet.decode_bundle time (ms.map .message)
  rw [eq, okPrefix_elements portable small depth (by decide)]

end Tangible.Osc
