import GoImage.Proofs.Bytes.Reads
import GoImage.Proofs.Image.Scan

/-! # Bytes written into sections

Where no two sections have content at one address, what is written into any of them is read back by
its address. -/

namespace GoImage.Image

/-- No two sections have content at one address. -/
def Apart (image : Image) : Prop :=
  image.sections.Pairwise fun s t => ∀ va, ¬ (s.holds va = true ∧ t.holds va = true)

/-- Whether bytes are written at an address, in the content of a section. -/
def Written (image : Image) (bytes : List UInt8) (va : Nat) : Prop :=
  ∃ s ∈ image.fileBackedSections, ∃ content, image.content s = .ok content ∧ s.address ≤ va ∧
    StandsAt bytes content (va - s.address)

variable {image : Image} {s : Section} {content : ByteArray} {bytes : List UInt8} {va : Nat}

theorem Apart.sectionHolding?_eq (h : image.Apart) (hs : s ∈ image.sections)
    (hholds : s.holds va = true) : image.sectionHolding? va = some s :=
  find?_eq_some_of_pairwise (h.imp fun hst => hst va) hs hholds

theorem size_content_le_data (h : image.content s = .ok content) :
    content.size ≤ image.data.size := by
  unfold Image.content slice at h
  split at h
  · split at h
    · cases h
      rw [ByteArray.size_extract]
      omega
    · cases h
  · cases h
    exact Nat.zero_le image.data.size

/-- A section holds the bytes that stand at its place in the file. -/
theorem content_of_standsAt (hbacked : s.isFileBacked = true) (hsize : s.fileSize = bytes.length)
    (hstands : StandsAt bytes image.data s.offset) :
    image.content s = .ok bytes.toByteArray := by
  have hfits := hstands.le_size
  rw [content_eq hbacked (by rwa [hsize]), hsize, hstands.extract_eq]

namespace Written

theorem length_le (h : image.Written bytes va) : bytes.length ≤ image.data.size := by
  obtain ⟨s, -, content, hcontent, -, hstands⟩ := h
  have hcontent := size_content_le_data hcontent
  have hstands := hstands.le_size
  omega

theorem exists_bytesFrom (h : image.Written bytes va) (hapart : image.Apart) (hne : bytes ≠ []) :
    ∃ data, image.bytesFrom va = .ok data ∧ StandsAt bytes data 0 := by
  obtain ⟨s, hs, content, hcontent, haddress, hstands⟩ := h
  have hpos := List.length_pos_iff.2 hne
  have hcontent_le := size_content_le hcontent
  have hstands_le := hstands.le_size
  have hholds : s.holds va = true := by
    rw [Section.holds_iff]
    omega
  have hholding := hapart.sectionHolding?_eq (mem_fileBackedSections.1 hs).1 hholds
  refine ⟨_, bytesFrom_eq hholding hcontent (by omega), ?_⟩
  have hrest := hstands.extract_size (Nat.le_refl _)
  rwa [Nat.sub_self] at hrest

/-- What a decoder reads from bytes, it reads from the image where they are written. -/
theorem decodeAt_eq {α : Type} {decoder : Decoder α} {a : α} (h : image.Written bytes va)
    (hapart : image.Apart) (hne : bytes ≠ [])
    (hread : decoder.ReadsAt image.order image.pointerSize.bytes 0 bytes a) :
    image.decodeAt va decoder = .ok a := by
  obtain ⟨data, hdata, hstands⟩ := h.exists_bytesFrom hapart hne
  unfold decodeAt
  rw [hdata]
  exact hread.on rfl rfl rfl hstands

theorem bytesAt_eq (h : image.Written bytes va) (hapart : image.Apart) (hne : bytes ≠ []) :
    image.bytesAt va bytes.length = .ok bytes.toByteArray := by
  obtain ⟨data, hdata, hstands⟩ := h.exists_bytesFrom hapart hne
  have hle := hstands.le_size
  have hextract := hstands.extract_eq
  rw [Nat.zero_add] at hle hextract
  unfold bytesAt
  rw [hdata]
  dsimp only
  rw [if_pos hle, hextract]

end Written

end GoImage.Image
