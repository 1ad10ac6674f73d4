import Mathlib.Tactic.SplitIfs
import Mathlib.Algebra.Group.Nat.Defs
import Tangible.Osc.Decode
import Tangible.Osc.Encode
import Tangible.Proofs.Lists

/-!
# Reading what was written

`Reads r bytes a` says that the step `r` reads the value `a` from the bytes that were written for
it, whatever stands behind them. The step starts at a multiple of four bytes from the start of the
packet and ends at one, so `Reads` is closed under sequencing (`Reads.bind`), and each writer of a
field has one law here:

* words, double words and time tags (`reads_word`, `reads_wide`, `reads_time`);
* texts without NUL (`reads_text`);
* blobs whose length is not a multiple of four (`reads_blob`); `blob_aligned_fails` is the other
  case, in which the reader wants padding that the writer does not add.
-/

namespace Tangible

namespace Osc

/-! ## Words and characters as bytes -/

theorem wordOfBytes_bytes (w : UInt32) :
    wordOfBytes (w >>> 24).toUInt8 (w >>> 16).toUInt8 (w >>> 8).toUInt8 w.toUInt8 = w := by
  apply UInt32.toBitVec_inj.mp
  ext i hi
  simp only [wordOfBytes, UInt32.toBitVec_or, UInt32.toBitVec_shiftLeft, UInt8.toBitVec_toUInt32,
    UInt32.toBitVec_toUInt8, UInt32.toBitVec_shiftRight, UInt32.toBitVec_ofNat, BitVec.getElem_or,
    BitVec.getElem_setWidth, BitVec.getLsbD_setWidth, BitVec.reduceMod, BitVec.shiftLeft_eq',
    BitVec.ushiftRight_eq', BitVec.toNat_ofNat, Nat.reduceMod, Nat.reducePow,
    BitVec.getElem_shiftLeft, BitVec.getLsbD_ushiftRight]
  grind

theorem doubleWord_halves (w : UInt64) : doubleWord (w >>> 32).toUInt32 w.toUInt32 = w := by
  apply UInt64.toBitVec_inj.mp
  ext i hi
  simp only [doubleWord, UInt64.toBitVec_or, UInt64.toBitVec_shiftLeft, UInt32.toBitVec_toUInt64,
    UInt64.toBitVec_toUInt32, UInt64.toBitVec_shiftRight, UInt64.toBitVec_ofNat, BitVec.getElem_or,
    BitVec.getElem_setWidth, BitVec.getLsbD_setWidth, BitVec.reduceMod, BitVec.shiftLeft_eq',
    BitVec.ushiftRight_eq', BitVec.toNat_ofNat, Nat.reduceMod, Nat.reducePow,
    BitVec.getElem_shiftLeft, BitVec.getLsbD_ushiftRight]
  grind

/-- Only NUL is written with a NUL byte. -/
theorem eq_nul_of_zero_mem {c : Char} (h : 0 ∈ String.utf8EncodeChar c) : c = '\x00' := by
  have small : c.val.toNat < 0x110000 := by
    rcases c.valid with low | ⟨_, high⟩ <;> omega
  have zero : c.val.toNat = 0 := by
    simp only [String.utf8EncodeChar] at h
    generalize c.val.toNat = n at *
    split_ifs at h <;> simp only [List.mem_cons, List.not_mem_nil, or_false, ← UInt8.toNat_inj,
      UInt8.toNat_ofNat', UInt8.toNat_ofNat] at h <;> omega
  exact Char.ext (UInt32.toNat.inj zero)

theorem textBytes_eq_flatMap (s : String) :
    textBytes s = s.toList.flatMap String.utf8EncodeChar := by
  rw [textBytes, ← String.utf8Encode_toList, List.utf8Encode]
  simp

theorem zero_notMem_textBytes {s : String} (clean : '\x00' ∉ s.toList) : 0 ∉ textBytes s := by
  rw [textBytes_eq_flatMap, List.mem_flatMap]
  rintro ⟨c, member, zero⟩
  exact clean (eq_nul_of_zero_mem zero ▸ member)

theorem four_dvd_encodeText (s : String) : 4 ∣ (encodeText s).length := by
  simp only [encodeText, textPadding, List.length_append, List.length_replicate]
  omega

/-- A text ends with a NUL, and with more of them where padding is left. -/
theorem encodeText_eq (s : String) :
    ∃ n, textPadding (textBytes s).length = n + 1 ∧
      encodeText s = textBytes s ++ 0 :: List.replicate n 0 := by
  obtain ⟨n, pad⟩ : ∃ n, textPadding (textBytes s).length = n + 1 :=
    ⟨3 - (textBytes s).length % 4, by simp only [textPadding]; omega⟩
  exact ⟨n, pad, by rw [encodeText, pad, List.replicate_succ]⟩

/-! ## Sequencing -/

namespace Read

variable {α β : Type}

theorem bind_ok {r : Read α} {k : α → Read β} {before after : Input} {a : α}
    (first : r before = .ok (a, after)) : (r >>= k) before = k a after := by
  change (r before >>= fun p => k p.1 p.2) = _
  rw [first]
  rfl

theorem bind_error {r : Read α} {k : α → Read β} {before : Input} {e : DecodeError}
    (first : r before = .error e) : (r >>= k) before = .error e := by
  change (r before >>= fun p => k p.1 p.2) = _
  rw [first]
  rfl

end Read

/-! ## The relation -/

/-- On every input that starts with the bytes at a multiple of four, the step gives the value and
stops behind the bytes, again at a multiple of four. -/
structure Reads {α : Type} (r : Read α) (bytes : List UInt8) (a : α) : Prop where
  aligned : 4 ∣ bytes.length
  run : ∀ offset rest, 4 ∣ offset →
    r ⟨offset, bytes ++ rest⟩ = .ok (a, ⟨offset + bytes.length, rest⟩)

namespace Reads

variable {α β : Type}

theorem pure (a : α) : Reads (Pure.pure a) [] a :=
  ⟨by simp, fun _ _ _ => rfl⟩

theorem bind {r : Read α} {k : α → Read β} {xs ys : List UInt8} {a : α} {b : β}
    (first : Reads r xs a) (later : Reads (k a) ys b) : Reads (r >>= k) (xs ++ ys) b := by
  refine ⟨by simpa using Nat.dvd_add first.aligned later.aligned, fun offset rest aligned => ?_⟩
  have step := first.run offset (ys ++ rest) aligned
  have last := later.run (offset + xs.length) rest (Nat.dvd_add aligned first.aligned)
  rw [List.append_assoc, List.length_append, ← Nat.add_assoc]
  exact (Read.bind_ok step).trans last

/-- A last step that only returns takes no bytes. -/
theorem result {r : Read α} {k : α → Read β} {bytes : List UInt8} {a : α} {b : β}
    (first : Reads r bytes a) (returns : k a = Pure.pure b) : Reads (r >>= k) bytes b := by
  have h := first.bind (returns ▸ pure b)
  rwa [List.append_nil] at h

/-- A whole input is read to its end. -/
theorem run_all {r : Read α} {bytes : List UInt8} {a : α} (h : Reads r bytes a) {offset : Nat}
    (aligned : 4 ∣ offset) : r ⟨offset, bytes⟩ = .ok (a, ⟨offset + bytes.length, []⟩) := by
  simpa using h.run offset [] aligned

end Reads

/-! ## Fields -/

namespace Read

theorem reads_four (a b c d : UInt8) : Reads four [a, b, c, d] (a, b, c, d) :=
  ⟨by simp, fun _ _ _ => rfl⟩

theorem reads_word (w : UInt32) : Reads word (wordBytes w) w :=
  (reads_four ..).result (by simp only [wordOfBytes_bytes])

theorem reads_wide (w : UInt64) : Reads wide (doubleWordBytes w) w :=
  (reads_word _).bind ((reads_word _).result (by rw [doubleWord_halves]))

theorem reads_time (t : Timetag) : Reads time (encodeTime t) t :=
  (reads_word t.seconds).bind ((reads_word t.fraction).result rfl)

theorem reads_char (c : Char) : Reads char (wordBytes c.val) c :=
  (reads_word c.val).result (dif_pos c.valid)

/-- Taking as many bytes as there are in front. -/
theorem take_append {n : Nat} {bytes : List UInt8} (length : bytes.length = n) (offset : Nat)
    (rest : List UInt8) :
    take n ⟨offset, bytes ++ rest⟩ = .ok (bytes, ⟨offset + n, rest⟩) := by
  subst length
  simp [take]

theorem take_short {n : Nat} {bytes : List UInt8} (short : bytes.length < n) (offset : Nat) :
    take n ⟨offset, bytes⟩ = .error .endOfData := by
  simp only [take]
  rw [if_neg (by simp only [List.length_take]; omega)]

theorem padding_append {bytes : List UInt8} {offset : Nat}
    (length : bytes.length = textPadding offset) (rest : List UInt8) :
    padding ⟨offset, bytes ++ rest⟩ = .ok ((), ⟨offset + bytes.length, rest⟩) := by
  have taken := take_append length offset rest
  rw [← length] at taken
  change ((fun _ => ()) <$> take (textPadding offset)) ⟨offset, bytes ++ rest⟩ = _
  rw [← length, ← bind_pure_comp]
  exact bind_ok taken

theorem padding_missing {offset : Nat} : padding ⟨offset, []⟩ = .error .endOfData := by
  have short : ([] : List UInt8).length < textPadding offset := by
    simp only [textPadding, List.length_nil]
    omega
  change ((fun _ => ()) <$> take (textPadding offset)) ⟨offset, []⟩ = _
  rw [← bind_pure_comp]
  exact bind_error (take_short short offset)

theorem untilNul_append {found : List UInt8} (clean : 0 ∉ found) (offset : Nat)
    (rest : List UInt8) :
    untilNul ⟨offset, found ++ 0 :: rest⟩ = .ok (found, ⟨offset + found.length, 0 :: rest⟩) := by
  have nonzero : ∀ b ∈ found, (decide (b ≠ 0)) = true := fun b member =>
    decide_eq_true fun zero => clean (zero ▸ member)
  have taken : (found ++ 0 :: rest).takeWhile (fun b => decide (b ≠ 0)) = found := by
    rw [List.takeWhile_append_of_pos nonzero]
    simp
  have dropped : (found ++ 0 :: rest).dropWhile (fun b => decide (b ≠ 0)) = 0 :: rest := by
    rw [List.dropWhile_append_of_pos nonzero]
    simp
  simp only [untilNul, taken, dropped]

theorem reads_text {s : String} (clean : '\x00' ∉ s.toList) : Reads text (encodeText s) s := by
  refine ⟨four_dvd_encodeText s, fun offset rest aligned => ?_⟩
  -- the writer counts from the start of the text, the reader from the start of the packet
  have pad : textPadding (textBytes s).length = textPadding (offset + (textBytes s).length) := by
    simp only [textPadding]
    omega
  obtain ⟨n, more, padded⟩ := encodeText_eq s
  have filling : (0 :: List.replicate n (0 : UInt8)).length =
      textPadding (offset + (textBytes s).length) := by
    rw [List.length_cons, List.length_replicate, ← pad, more]
  have found := untilNul_append (zero_notMem_textBytes clean) offset (List.replicate n 0 ++ rest)
  have closed := padding_append filling rest
  rw [padded, List.append_assoc, List.cons_append]
  refine (bind_ok found).trans ((bind_ok closed).trans ?_)
  simp only [text?_textBytes, List.length_append, List.length_cons, List.length_replicate,
    Nat.add_assoc]
  rfl

/-- What stands behind the length of a blob. -/
theorem reads_blobBody {bytes : List UInt8} (ragged : ¬ 4 ∣ bytes.length) :
    Reads (do let body ← take bytes.length; padding; return body)
      (bytes ++ List.replicate (blobPadding bytes.length) 0) bytes := by
  refine ⟨?_, fun offset rest aligned => ?_⟩
  · simp only [blobPadding, List.length_append, List.length_replicate]
    omega
  have filling : (List.replicate (blobPadding bytes.length) (0 : UInt8)).length =
      textPadding (offset + bytes.length) := by
    simp only [List.length_replicate, blobPadding, textPadding]
    omega
  have body := take_append (n := bytes.length) rfl offset
    (List.replicate (blobPadding bytes.length) 0 ++ rest)
  have closed := padding_append filling rest
  rw [List.append_assoc, List.length_append, ← Nat.add_assoc]
  exact (bind_ok body).trans ((bind_ok closed).trans rfl)

theorem reads_blob {bytes : List UInt8} (ragged : ¬ 4 ∣ bytes.length)
    (small : bytes.length < 2 ^ 32) : Reads blob (encodeBlob bytes) bytes := by
  have length : (UInt32.ofNat bytes.length).toNat = bytes.length :=
    UInt32.toNat_ofNat_of_lt' small
  rw [encodeBlob, List.append_assoc]
  refine (reads_word _).bind ?_
  rw [length]
  exact reads_blobBody ragged

/-- A blob that ends at a multiple of four and at the end of the input is cut short: the reader
looks for padding behind it. -/
theorem blob_aligned_fails {bytes : List UInt8} (aligned : 4 ∣ bytes.length)
    (small : bytes.length < 2 ^ 32) (offset : Nat) (start : 4 ∣ offset) :
    blob ⟨offset, encodeBlob bytes⟩ = .error .endOfData := by
  have length : (UInt32.ofNat bytes.length).toNat = bytes.length :=
    UInt32.toNat_ofNat_of_lt' small
  have none : blobPadding bytes.length = 0 := by
    simp only [blobPadding]
    omega
  rw [encodeBlob, none, List.append_assoc]
  refine (bind_ok ((reads_word _).run offset _ start)).trans ?_
  rw [length]
  exact (bind_ok (take_append rfl _ _)).trans (bind_error padding_missing)

end Read

end Osc

end Tangible
