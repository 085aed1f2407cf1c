import GoImage.Proofs.Image.Offset

/-! # Sections as readers rely on them

The formats state sizes, zero-filled memory and absent content in ways of their own. Whatever
numbers their headers hold, a section has no more content than memory and is marked as initialized
if it has any. So a section that an address is translated through also contains the address, and is
never taken for an empty one. -/

namespace GoImage

variable {s : Section} {va : Nat}

namespace Section

/-- No more content than memory, and a mark where there is content. -/
structure Normal (s : Section) : Prop where
  fileSize_le : s.fileSize ≤ s.size
  initialized_of_pos : 0 < s.fileSize → s.initialized = true

theorem OfHeader.fileSize_le (h : s.OfHeader) : s.fileSize ≤ s.size := by
  cases h with
  | elf names header =>
      dsimp only [Elf.sectionOf]
      split
      · exact Nat.zero_le _
      · exact Nat.le_refl _
  | segment header index => exact Nat.min_le_right _ _
  | pe imageBase header =>
      dsimp only [Pe.sectionOf]
      split
      · exact Nat.zero_le _
      · exact Nat.min_le_right _ _
  | machO segment header =>
      dsimp only [MachO.sectionOf]
      split
      · exact Nat.zero_le _
      · exact Nat.le_refl _

theorem OfHeader.normal (h : s.OfHeader) : s.Normal :=
  ⟨h.fileSize_le, h.initialized⟩

namespace Normal

theorem isFileBacked_iff (h : s.Normal) : s.isFileBacked = true ↔ 0 < s.fileSize := by
  simp only [isFileBacked, Bool.and_eq_true, decide_eq_true_eq, and_iff_right_iff_imp]
  exact h.initialized_of_pos

theorem contains_of_holds (h : s.Normal) (hva : s.holds va = true) : s.contains va = true := by
  have hle := h.fileSize_le
  rw [holds_iff] at hva
  rw [contains_iff]
  omega

end Normal

end Section

namespace Image

variable {image : Image}

/-- Content from the file wins over memory. -/
theorem sectionAt?_of_sectionHolding? (h : image.sectionHolding? va = some s) :
    image.sectionAt? va = some s := by
  rw [sectionAt?, h, Option.some_or]

theorem content_of_holds (hs : s.Normal) (hva : s.holds va = true) :
    image.content s = image.slice s.offset s.fileSize := by
  rw [Section.holds_iff] at hva
  exact if_pos (hs.isFileBacked_iff.2 (by omega))

/-- What is read of a section that an address lies in is never empty. -/
theorem content_ne_empty (hs : s.Normal) (hva : s.holds va = true) :
    image.content s ≠ .ok ByteArray.empty := by
  rw [content_of_holds hs hva, slice]
  rw [Section.holds_iff] at hva
  split
  · intro hempty
    have hsize := congrArg ByteArray.size (Except.ok.inj hempty)
    rw [ByteArray.size_extract, ByteArray.size_empty] at hsize
    omega
  · intro h
    cases h

/-- The four kinds of headers all stand for normal sections, whatever numbers they hold, and the
sections of every file whose headers are accepted stand for such headers. So in every such file the
content of a section counts exactly if there is any, it lies within the section, and where an
address can be translated there is a section to be found: the one that is translated through, which
is not taken for an empty one. -/
theorem sections_normal :
    (∀ s : Section, s.OfHeader → s.Normal) ∧
    ∀ (data : ByteArray) (headers : Headers), Headers.ofBytes data = .ok headers →
      let image : Image := { headers with data }
      (∀ s ∈ image.sections, s.OfHeader ∧ s.fileSize ≤ s.size ∧
        (0 < s.fileSize → s.initialized = true) ∧ (s.isFileBacked = true ↔ 0 < s.fileSize) ∧
        ∀ va, s.holds va = true → s.contains va = true ∧
          image.content s = image.slice s.offset s.fileSize ∧
          image.content s ≠ .ok ByteArray.empty) ∧
      (∀ va s, image.sectionHolding? va = some s → image.sectionAt? va = some s) ∧
      ∀ va offset, image.offsetOf va = .ok offset →
        ∃ s ∈ image.sections, image.sectionAt? va = some s ∧ s.contains va = true ∧
          offset = s.position va := by
  refine ⟨fun s hs => hs.normal, fun data headers hheaders => ?_⟩
  have hsections := Headers.ofTables_of_ofBytes hheaders
  intro image
  refine ⟨fun s hs => ?_, fun va s => sectionAt?_of_sectionHolding?, fun va offset hoffset => ?_⟩
  · have hnormal := (hsections s hs).normal
    exact ⟨hsections s hs, hnormal.fileSize_le, hnormal.initialized_of_pos,
      hnormal.isFileBacked_iff, fun va hva => ⟨hnormal.contains_of_holds hva,
        content_of_holds hnormal hva, content_ne_empty hnormal hva⟩⟩
  · obtain ⟨s, hs, -, rfl⟩ := offsetOf_eq_ok_iff.1 hoffset
    have hholding := sectionHolding?_eq_some_iff.2 hs
    obtain ⟨hmem, hva⟩ := holds_of_sectionHolding? hholding
    exact ⟨s, hmem, sectionAt?_of_sectionHolding? hholding,
      (hsections s hmem).normal.contains_of_holds hva, rfl⟩

/-- A segment that states more bytes in the file than in memory is cut to its memory, and is found
at its last address. -/
theorem sectionAt?_overlapFile :
    Headers.ofBytes overlapFile = .ok overlapImage.toHeaders ∧
      overlapImage.offsetOf 0x800b = .ok 131 ∧
      ∃ s ∈ overlapImage.sections, s.fileSize ≤ s.size ∧
        overlapImage.sectionAt? 0x800b = some s ∧ s.contains 0x800b = true := by
  have hheaders : Headers.ofBytes overlapFile = .ok overlapImage.toHeaders := by
    obtain ⟨headers, hheaders, heq⟩ := exists_headers_of_ofBytes ofBytes_overlapFile
    rw [hheaders, heq]
  have hoffset : overlapImage.offsetOf 0x800b = .ok 131 :=
    offsetOf_eq_ok_iff.2 ⟨highSegment, sectionHolding?_eq_some_iff.1 (by decide), by decide, rfl⟩
  obtain ⟨-, haccepted⟩ := sections_normal
  obtain ⟨hsections, -, hfound⟩ := haccepted overlapFile overlapImage.toHeaders hheaders
  obtain ⟨s, hmem, hs, hcontains, -⟩ := hfound 0x800b 131 hoffset
  obtain ⟨-, hfits, -⟩ := hsections s hmem
  exact ⟨hheaders, hoffset, s, hmem, hfits, hs, hcontains⟩

end Image

end GoImage
