import GoImage.Proofs.BuildInfo.Truncation
import GoImage.Proofs.Bytes.Text

/-! # Frames that are cut off

Whether a frame is whole is told from one byte alone, the one in front of the last sixteen. A cut
that leaves sixteen bytes behind a line end therefore passes for an end marker, and these bytes are
lost. Every other cut is noticed, and nothing in front of it is lost. -/

namespace GoImage.BuildInfo

/-! ## Behind a start marker -/

/-- Whether bytes end a line right in front of their last sixteen. -/
def EndsLineBehind (bytes : List UInt8) : Prop :=
  17 ≤ bytes.length ∧ bytes[bytes.length - 17]? = some 0x0a

instance (bytes : List UInt8) : Decidable (EndsLineBehind bytes) :=
  inferInstanceAs (Decidable (_ ∧ _))

section Started

variable {bytes : List UInt8}

theorem length_started : (startMarker ++ bytes).toByteArray.size = 16 + bytes.length := by
  rw [List.size_toByteArray, List.length_append]
  rfl

theorem hasBytes_started : hasBytes (startMarker ++ bytes).toByteArray 0 startMarker = true := by
  apply (hasBytes_iff (by decide)).mpr
  exact ⟨[], bytes, by simp, rfl⟩

theorem extract_started (stop : Nat) :
    (startMarker ++ bytes).toByteArray.extract 16 (16 + stop) = (bytes.take stop).toByteArray := by
  have hmarker : startMarker.length = 16 := rfl
  rw [extract_eq_toByteArray, List.toList_data_toByteArray, List.drop_left' hmarker]

/-- The byte in front of the last sixteen is looked up behind the marker. -/
theorem getElem?_started (h : 17 ≤ bytes.length) :
    (startMarker ++ bytes).toByteArray[16 + bytes.length - 17]? = bytes[bytes.length - 17]? := by
  have hmarker : startMarker.length = 16 := rfl
  rw [getElem?_toByteArray, List.getElem?_append_right (by omega)]
  congr 1
  omega

theorem unframed_of_endsLineBehind (h : EndsLineBehind bytes) :
    unframed (startMarker ++ bytes).toByteArray =
      ((bytes.take (bytes.length - 16)).toByteArray, false) := by
  obtain ⟨hlength, hline⟩ := h
  have hstop : 16 + bytes.length - 16 = 16 + (bytes.length - 16) := by omega
  rw [unframed, length_started, getElem?_started hlength, if_pos ⟨by omega, hline⟩, hstop,
    extract_started]

theorem unframed_of_not_endsLineBehind (h : ¬ EndsLineBehind bytes) :
    unframed (startMarker ++ bytes).toByteArray = (bytes.toByteArray, true) := by
  have hshort : ¬ (33 ≤ 16 + bytes.length ∧
      (startMarker ++ bytes).toByteArray[16 + bytes.length - 17]? = some 0x0a) := by
    rintro ⟨hsize, hline⟩
    have hlength : 17 ≤ bytes.length := by omega
    exact h ⟨hlength, getElem?_started hlength ▸ hline⟩
  rw [unframed, length_started, if_neg hshort, if_pos hasBytes_started, extract_started,
    List.take_length]

end Started

/-! ## Module texts that are cut off -/

/-- The bytes of a module text and its end marker in front of a cut. -/
def beforeCut (text : List UInt8) (k : Nat) : List UInt8 :=
  (text ++ endMarker).take k

section Cut

variable {text : List UInt8} {k : Nat}

/-- In front of a cut inside the end marker or the text, only lines of the text end. -/
theorem endsLineBehind_beforeCut (hk : k < text.length + endMarker.length) :
    EndsLineBehind (beforeCut text k) ↔ 17 ≤ k ∧ text[k - 17]? = some 0x0a := by
  have hmarker : endMarker.length = 16 := rfl
  have hlength : (beforeCut text k).length = k := by
    rw [beforeCut, List.length_take, List.length_append]
    omega
  unfold EndsLineBehind
  rw [hlength]
  refine and_congr_right fun hle => ?_
  rw [beforeCut, List.getElem?_take_of_lt (by omega), List.getElem?_append_left (by omega)]

theorem take_beforeCut (hk : k < text.length + endMarker.length) :
    (beforeCut text k).take ((beforeCut text k).length - 16) = text.take (k - 16) := by
  have hmarker : endMarker.length = 16 := rfl
  rw [beforeCut, List.length_take, List.length_append, List.take_take,
    List.take_append_of_le_length (by omega)]
  congr 1
  omega

/-- A module text that is cut off in front of the end of its end marker is kept up to the cut, and
the cut is noticed, exactly if no line of the text ends in front of the last sixteen bytes that are
left. Otherwise these sixteen are dropped, and what is kept passes for a whole text. -/
theorem unframed_beforeCut (hk : k < text.length + endMarker.length) :
    (unframed (startMarker ++ beforeCut text k).toByteArray =
        ((beforeCut text k).toByteArray, true) ↔
      ¬ (17 ≤ k ∧ text[k - 17]? = some 0x0a)) ∧
    (17 ≤ k ∧ text[k - 17]? = some 0x0a →
      unframed (startMarker ++ beforeCut text k).toByteArray =
        ((text.take (k - 16)).toByteArray, false)) := by
  have hdropped : 17 ≤ k ∧ text[k - 17]? = some 0x0a →
      unframed (startMarker ++ beforeCut text k).toByteArray =
        ((text.take (k - 16)).toByteArray, false) := by
    intro hline
    have hends := (endsLineBehind_beforeCut hk).mpr hline
    rw [unframed_of_endsLineBehind hends, take_beforeCut hk]
  refine ⟨⟨fun hkept hline => ?_, fun hline => ?_⟩, hdropped⟩
  · have hflags := congrArg Prod.snd ((hdropped hline).symm.trans hkept)
    cases hflags
  · apply unframed_of_not_endsLineBehind
    rwa [endsLineBehind_beforeCut hk]

end Cut

/-- What is recorded of a command and one setting of its build. -/
def commandText : List UInt8 :=
  textBytes "path\tcmd\nmod\tcmd\tv1.0.0\nbuild\tGOOS=linux\n"

/-- A cut inside the first line is noticed. -/
theorem unframed_commandText_first :
    6 < commandText.length + endMarker.length ∧
      beforeCut commandText 6 = textBytes "path\tc" ∧
      unframed (startMarker ++ beforeCut commandText 6).toByteArray =
        ((beforeCut commandText 6).toByteArray, true) := by
  have hk : 6 < commandText.length + endMarker.length := by decide +kernel
  have hline : ¬ (17 ≤ 6 ∧ commandText[6 - 17]? = some 0x0a) := by decide
  exact ⟨hk, by decide +kernel, (unframed_beforeCut hk).1.mpr hline⟩

/-- A cut behind the first letter of the third line is not, and the second line is lost. -/
theorem unframed_commandText_third :
    beforeCut commandText 25 <+: commandText ∧
      beforeCut commandText 25 = textBytes "path\tcmd\nmod\tcmd\tv1.0.0\nb" ∧
      ¬ endMarker <:+ startMarker ++ beforeCut commandText 25 ∧
      unframed (startMarker ++ beforeCut commandText 25).toByteArray =
        ((textBytes "path\tcmd\n").toByteArray, false) := by
  have hends : EndsLineBehind (beforeCut commandText 25) := by decide +kernel
  have hkept : (beforeCut commandText 25).take ((beforeCut commandText 25).length - 16) =
      textBytes "path\tcmd\n" := by decide +kernel
  refine ⟨by decide +kernel, by decide +kernel, by decide +kernel, ?_⟩
  rw [unframed_of_endsLineBehind hends, hkept]

end GoImage.BuildInfo
