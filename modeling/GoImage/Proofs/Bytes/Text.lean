import GoImage.Proofs.Bytes.Reads
import GoImage.Proofs.Run

/-! # Texts in bytes

A text that is written is read back: as it stands where its length is known, and up to the zero byte
behind it where none is part of it. -/

namespace GoImage

/-- The bytes of a text. -/
def textBytes (text : String) : List UInt8 :=
  text.toByteArray.data.toList

theorem toByteArray_textBytes (text : String) :
    (textBytes text).toByteArray = text.toByteArray := by
  ext1
  simp [textBytes]

theorem length_textBytes (text : String) : (textBytes text).length = text.utf8ByteSize := by
  simp [textBytes]

theorem textBytes_eq_flatMap (text : String) :
    textBytes text = text.toList.flatMap String.utf8EncodeChar := by
  rw [textBytes, ← String.utf8Encode_toList, List.utf8Encode, List.toList_data_toByteArray]

/-! ## Bytes as text -/

theorem fromUTF8?_toByteArray (text : String) : String.fromUTF8? text.toByteArray = some text := by
  rw [String.fromUTF8?, dif_pos text.isValidUTF8]
  rfl

theorem Utf8.decode_toByteArray (text : String) : Utf8.decode text.toByteArray = .ok text := by
  rw [Utf8.decode, fromUTF8?_toByteArray]

theorem isValidUTF8_textBytes (text : String) : (textBytes text).toByteArray.IsValidUTF8 :=
  toByteArray_textBytes text ▸ text.isValidUTF8

theorem exists_textBytes_of_isValidUTF8 {bytes : List UInt8}
    (h : bytes.toByteArray.IsValidUTF8) : ∃ text, bytes = textBytes text :=
  ⟨⟨bytes.toByteArray, h⟩, List.toList_data_toByteArray.symm⟩

theorem Utf8.decode_of_not_isValidUTF8 {bytes : ByteArray} (h : ¬ bytes.IsValidUTF8) :
    Utf8.decode bytes = .error (Utf8.fault bytes) := by
  rw [Utf8.decode, String.fromUTF8?, dif_neg h]

/-! ## Bytes up to a zero byte -/

/-- The bytes in front of the first zero byte; all of them if there is none. -/
def beforeZero (bytes : List UInt8) : List UInt8 :=
  bytes.takeWhile (· ≠ 0)

theorem beforeZero_isPrefix (bytes : List UInt8) : beforeZero bytes <+: bytes :=
  List.takeWhile_prefix _

theorem beforeZero_append {bytes : List UInt8} (h : 0 ∉ bytes) (rest : List UInt8) :
    beforeZero (bytes ++ rest) = bytes ++ beforeZero rest :=
  List.takeWhile_append_of_pos fun b hb => by
    simpa using fun hzero : b = 0 => h (hzero ▸ hb)

theorem beforeZero_eq_self {bytes : List UInt8} (h : 0 ∉ bytes) : beforeZero bytes = bytes := by
  simpa [beforeZero] using beforeZero_append h []

theorem beforeZero_append_cons {bytes : List UInt8} (h : 0 ∉ bytes) (rest : List UInt8) :
    beforeZero (bytes ++ 0 :: rest) = bytes := by
  simpa [beforeZero] using beforeZero_append h (0 :: rest)

theorem untilZero_eq {data : ByteArray} {pos : Nat} (h : pos ≤ data.size) :
    untilZero data pos = pos + (beforeZero (data.data.toList.drop pos)).length := by
  fun_induction untilZero data pos with
  | case1 i hi hzero =>
      have hdrop : data.data.toList.drop i = data[i] :: data.data.toList.drop (i + 1) :=
        List.drop_eq_getElem_cons (by simpa using hi)
      simp [hdrop, hzero, beforeZero]
  | case2 i hi hne ih =>
      have hdrop : data.data.toList.drop i = data[i] :: data.data.toList.drop (i + 1) :=
        List.drop_eq_getElem_cons (by simpa using hi)
      rw [ih hi, hdrop, beforeZero, beforeZero, List.takeWhile_cons_of_pos (by simpa using hne),
        List.length_cons]
      omega
  | case3 i hi =>
      have hdrop : data.data.toList.drop i = [] :=
        List.drop_of_length_le (by simpa using Nat.le_of_not_lt hi)
      simp [hdrop, beforeZero]

theorem extract_untilZero {data : ByteArray} {pos : Nat} (h : pos ≤ data.size) :
    data.extract pos (untilZero data pos) =
      (beforeZero (data.data.toList.drop pos)).toByteArray := by
  have hprefix := List.prefix_iff_eq_take.1 (beforeZero_isPrefix (data.data.toList.drop pos))
  rw [untilZero_eq h, extract_eq_toByteArray, ← hprefix]

/-- Behind the zero byte, or at the end of the data. -/
theorem behind_untilZero {data : ByteArray} {pos : Nat} (h : pos ≤ data.size) :
    (if untilZero data pos < data.size then untilZero data pos + 1 else untilZero data pos) =
      min (pos + (beforeZero (data.data.toList.drop pos)).length + 1) data.size := by
  have hle := (beforeZero_isPrefix (data.data.toList.drop pos)).length_le
  have hdrop : (data.data.toList.drop pos).length = data.size - pos := by simp
  rw [hdrop] at hle
  rw [untilZero_eq h]
  split <;> omega

/-! ## Texts that end at a zero byte -/

namespace Decoder

variable {c : Cursor}

theorem run_text_of_eq {text : String} (h : c.pos ≤ c.data.size)
    (htext : beforeZero (c.data.data.toList.drop c.pos) = textBytes text) :
    Decoder.text.run c =
      .ok text { c with pos := min (c.pos + (textBytes text).length + 1) c.data.size } := by
  rw [run_text]
  dsimp only
  rw [behind_untilZero h, extract_untilZero h, htext, toByteArray_textBytes,
    Utf8.decode_toByteArray]

theorem run_text_of_not_isValidUTF8 {bytes : List UInt8} (h : c.pos ≤ c.data.size)
    (hbytes : beforeZero (c.data.data.toList.drop c.pos) = bytes)
    (hinvalid : ¬ bytes.toByteArray.IsValidUTF8) :
    Decoder.text.run c =
      .error (.malformed (.text c.pos (c.pos + bytes.length) (Utf8.fault bytes.toByteArray)))
        { c with pos := min (c.pos + bytes.length + 1) c.data.size } := by
  subst hbytes
  rw [run_text]
  dsimp only
  rw [behind_untilZero h, extract_untilZero h, untilZero_eq h,
    Utf8.decode_of_not_isValidUTF8 hinvalid]

theorem run_text_eq_ok_iff {text : String} {c' : Cursor} (h : c.pos ≤ c.data.size) :
    Decoder.text.run c = .ok text c' ↔
      beforeZero (c.data.data.toList.drop c.pos) = textBytes text ∧
        c' = { c with pos := min (c.pos + (textBytes text).length + 1) c.data.size } := by
  constructor
  · intro hrun
    by_cases hvalid : (beforeZero (c.data.data.toList.drop c.pos)).toByteArray.IsValidUTF8
    · obtain ⟨text', htext⟩ := exists_textBytes_of_isValidUTF8 hvalid
      rw [run_text_of_eq h htext] at hrun
      cases hrun
      exact ⟨htext, rfl⟩
    · rw [run_text_of_not_isValidUTF8 h rfl hvalid] at hrun
      cases hrun
  · rintro ⟨htext, rfl⟩
    exact run_text_of_eq h htext

/-- The text at an offset, wherever the cursor starts. -/
theorem seek_text_on_eq_ok_iff {pos : Nat} {text : String} :
    (do seek pos; Decoder.text : Decoder String).on c = .ok text ↔
      pos ≤ c.data.size ∧ beforeZero (c.data.data.toList.drop pos) = textBytes text := by
  simp only [on_eq_ok_iff, run_bind_eq_ok_iff, run_seek_eq_ok_iff]
  constructor
  · rintro ⟨c', _, _, ⟨hpos, rfl⟩, hrun⟩
    exact ⟨hpos, ((run_text_eq_ok_iff hpos).1 hrun).1⟩
  · rintro ⟨hpos, htext⟩
    exact ⟨_, (), _, ⟨hpos, rfl⟩, run_text_of_eq hpos htext⟩

end Decoder

theorem zero_notMem_utf8EncodeChar {c : Char} (h : c ≠ '\x00') : 0 ∉ String.utf8EncodeChar c := by
  have hc : c.val.toNat ≠ 0 := fun hzero => h (Char.toNat_inj.1 hzero)
  fun_cases String.utf8EncodeChar <;> simp [← UInt8.toNat_inj] <;> omega

theorem zero_notMem_textBytes {text : String} (h : '\x00' ∉ text.toList) : 0 ∉ textBytes text := by
  rw [textBytes_eq_flatMap, List.mem_flatMap]
  rintro ⟨c, hc, hzero⟩
  exact zero_notMem_utf8EncodeChar (fun hnul => h (hnul ▸ hc)) hzero

theorem Decoder.Reads.text {order : ByteOrder} {size : Nat} {text : String}
    (h : '\x00' ∉ text.toList) : Reads order size Decoder.text (textBytes text ++ [0]) text := by
  intro c _ _ hstands
  have hsize := hstands.le_size
  obtain ⟨rest, hrest⟩ := hstands.drop_eq
  have hbytes : beforeZero (c.data.data.toList.drop c.pos) = textBytes text := by
    rw [hrest, List.append_assoc]
    exact beforeZero_append_cons (zero_notMem_textBytes h) rest
  rw [List.length_append, List.length_singleton] at hsize ⊢
  rw [run_text_of_eq (by omega) hbytes, Nat.min_eq_left (by omega), Nat.add_assoc]

end GoImage
