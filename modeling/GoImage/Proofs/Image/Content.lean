import GoImage.Image.Basic

/-! # Reading by address

What a read by address gives is what stands in the content of the section that holds the address. -/

namespace GoImage

/-! ## Results -/

theorem exists_of_bind_eq_ok {ε α β : Type} {x : Except ε α} {f : α → Except ε β} {b : β}
    (h : x >>= f = .ok b) : ∃ a, x = .ok a ∧ f a = .ok b := by
  cases x with
  | error e => cases h
  | ok a => exact ⟨a, rfl, h⟩

theorem bind_eq_error_iff {ε α β : Type} {x : Except ε α} {f : α → Except ε β} {e : ε} :
    x >>= f = .error e ↔ x = .error e ∨ ∃ a, x = .ok a ∧ f a = .error e := by
  cases x with
  | error e' =>
      change Except.error e' = _ ↔ _
      simp
  | ok a =>
      change f a = _ ↔ _
      simp

theorem eq_ok_of_toOption {ε α : Type} {x : Except ε α} {a : α} (h : x.toOption = some a) :
    x = .ok a := by
  cases x with
  | error e => cases h
  | ok a' => exact congrArg Except.ok (Option.some.inj h)

/-! ## Words -/

theorem ByteOrder.readWord_toArray (order : ByteOrder) {width offset : Nat} {bytes : List UInt8}
    (h : offset + width ≤ bytes.length) :
    order.readWord width ⟨bytes.toArray⟩ offset =
      .ok (order.decode ((bytes.drop offset).take width)) := by
  have hsize : (ByteArray.mk bytes.toArray).size = bytes.length := rfl
  unfold readWord
  rw [if_pos (by omega)]
  simp

/-- A word inside a part of the data is the word at the same place of the data. -/
theorem ByteOrder.readWord_extract (order : ByteOrder) {width start stop i : Nat}
    {data : ByteArray} (hstop : stop ≤ data.size) (h : start + i + width ≤ stop) :
    order.readWord width (data.extract start stop) i = order.readWord width data (start + i) := by
  have hsize : (data.extract start stop).size = stop - start := by
    rw [ByteArray.size_extract, Nat.min_eq_left hstop]
  unfold readWord
  rw [if_pos (by omega), if_pos (by omega), ByteArray.extract_extract, Nat.min_eq_left (by omega),
    Nat.add_assoc]

theorem getElem?_extract_size (data : ByteArray) (start i : Nat) :
    (data.extract start data.size)[i]? = data[start + i]? := by
  have hsize : (data.extract start data.size).size = data.size - start := by
    rw [ByteArray.size_extract, Nat.min_self]
  by_cases h : start + i < data.size
  · rw [getElem?_pos data (start + i) h, getElem?_pos _ i (by omega), ByteArray.getElem_extract]
  · rw [getElem?_neg data (start + i) h, getElem?_neg _ i (by omega)]

/-! ## Sections -/

namespace Image

variable {image : Image} {s : Section} {content : ByteArray} {va : Nat}

theorem holds_of_sectionHolding? (h : image.sectionHolding? va = some s) :
    s ∈ image.sections ∧ s.holds va = true :=
  ⟨List.mem_of_find?_eq_some h, by simpa using List.find?_some h⟩

theorem content_eq (hbacked : s.isFileBacked = true)
    (hfits : s.offset + s.fileSize ≤ image.data.size) :
    image.content s = .ok (image.data.extract s.offset (s.offset + s.fileSize)) := by
  unfold content slice
  rw [if_pos hbacked, if_pos hfits]

theorem fits_of_content (h : image.content s = .ok content) (hbacked : s.isFileBacked = true) :
    s.offset + s.fileSize ≤ image.data.size := by
  unfold Image.content slice at h
  rw [if_pos hbacked] at h
  split at h
  · assumption
  · cases h

theorem size_content_le (h : image.content s = .ok content) : content.size ≤ s.fileSize := by
  unfold Image.content slice at h
  split at h
  · split at h
    · cases h
      rw [ByteArray.size_extract]
      omega
    · cases h
  · cases h
    exact Nat.zero_le s.fileSize

theorem bytesFrom_eq (hs : image.sectionHolding? va = some s)
    (hcontent : image.content s = .ok content) (hle : va - s.address ≤ content.size) :
    image.bytesFrom va = .ok (content.extract (va - s.address) content.size) := by
  unfold bytesFrom
  rw [hs]
  dsimp only
  rw [hcontent]
  exact if_pos hle

/-- The bytes from the start of a section on are its content. -/
theorem bytesFrom_address (hs : image.sectionHolding? s.address = some s)
    (hcontent : image.content s = .ok content) : image.bytesFrom s.address = .ok content := by
  rw [bytesFrom_eq hs hcontent (by omega), Nat.sub_self, ByteArray.extract_zero_size]

theorem bytesAt_size {bytes : ByteArray} (h : image.bytesFrom va = .ok bytes) :
    image.bytesAt va bytes.size = .ok bytes := by
  unfold bytesAt
  rw [h]
  dsimp only
  rw [if_pos (Nat.le_refl bytes.size), ByteArray.extract_zero_size]

theorem exists_of_bytesFrom {bytes : ByteArray} (h : image.bytesFrom va = .ok bytes) :
    ∃ s content, image.sectionHolding? va = some s ∧ image.content s = .ok content ∧
      va - s.address ≤ content.size ∧
      bytes = content.extract (va - s.address) content.size := by
  unfold bytesFrom at h
  split at h
  · cases h
  · rename_i s hs
    split at h
    · cases h
    · rename_i content hcontent
      split at h
      · rename_i hle
        exact ⟨s, content, hs, hcontent, hle, (Except.ok.inj h).symm⟩
      · cases h

theorem bytesFrom_error {e : Error} (h : image.bytesFrom va = .error e) : e = .outOfBounds := by
  unfold bytesFrom Image.content slice at h
  grind

end Image

end GoImage
