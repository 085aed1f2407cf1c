import GoImage.Bytes.Utf8

/-! # Lossy reading of text

Bytes that hold a text are read as that text. -/

namespace GoImage.Utf8

theorem lossyChars_append (front : ByteArray) (chars : List Char) :
    lossyChars (front ++ chars.utf8Encode) front.size = chars := by
  induction chars generalizing front with
  | nil =>
      rw [lossyChars]
      simp
  | cons c chars ih =>
      have hsize : [c].utf8Encode.size = c.utf8Size := by
        rw [List.utf8Encode_singleton, List.size_toByteArray, String.length_utf8EncodeChar]
      have hpos := c.utf8Size_pos
      have hinside : front.size < (front ++ (c :: chars).utf8Encode).size := by
        rw [List.utf8Encode_cons, ByteArray.size_append, ByteArray.size_append]
        omega
      have hdecode : (front ++ (c :: chars).utf8Encode).utf8DecodeChar? front.size = some c := by
        rw [ByteArray.utf8DecodeChar?_eq_utf8DecodeChar?_extract,
          ByteArray.extract_append_eq_right rfl (by simp)]
        exact List.utf8DecodeChar?_utf8Encode_cons
      -- The characters behind the first one start behind its bytes.
      have hrest := ih (front ++ [c].utf8Encode)
      rw [ByteArray.append_assoc, ← List.utf8Encode_cons, ByteArray.size_append, hsize] at hrest
      rw [lossyChars, dif_pos hinside]
      simp only [hdecode, hrest]

/-- Lossy reading loses nothing of a text. -/
theorem lossy_toByteArray (text : String) : lossy text.toByteArray = text := by
  have h := lossyChars_append ByteArray.empty text.toList
  rw [ByteArray.empty_append, String.utf8Encode_toList] at h
  have hempty : ByteArray.empty.size = 0 := rfl
  rw [hempty] at h
  rw [lossy, h, String.ofList_toList]

end GoImage.Utf8
