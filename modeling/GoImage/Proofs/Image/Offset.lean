import GoImage.Proofs.Image.Translation

/-! # Offsets and bytes of an address

An address can be turned into an offset of the file, or into the bytes from there on. The offset is
added up from the header of a section alone, and the bytes have to be in the file. The two agree
exactly where the file has all that the header promises. -/

namespace GoImage.Image

variable {image : Image} {data : ByteArray} {s : Section} {va : Nat}

/-- Both ways accept an address or both refuse it, and lead to one place inside the file. -/
structure TranslatesAlike (image : Image) (va : Nat) : Prop where
  accepted : (∃ offset, image.offsetOf va = .ok offset) ↔ ∃ bytes, image.bytesFrom va = .ok bytes
  same : ∀ offset bytes, image.offsetOf va = .ok offset → image.bytesFrom va = .ok bytes →
    offset < image.data.size ∧ image.data.extract offset (offset + bytes.size) = bytes

theorem offsetOf_eq_ok_iff {offset : Nat} :
    image.offsetOf va = .ok offset ↔
      ∃ s, image.IsFirstAt va s ∧ s.position va < wordModulus ∧ offset = s.position va := by
  simp only [← sectionHolding?_eq_some_iff, offsetOf]
  cases image.sectionHolding? va with
  | none => simp
  | some s =>
      by_cases hword : s.offset + (va - s.address) < wordModulus
      · simp [Section.position, hword, eq_comm]
      · simp [Section.position, hword]

/-- The content of a section that is in the file stands at the position of its addresses. -/
theorem extract_position (hs : image.IsFirstAt va s) (hfits : s.offset + s.fileSize ≤ data.size) :
    s.position va < data.size ∧
      data.extract (s.position va) (s.position va +
          (data.extract (s.position va) (s.offset + s.fileSize)).size) =
        data.extract (s.position va) (s.offset + s.fileSize) := by
  obtain ⟨haddress, hend⟩ := hs.1
  have hposition : s.position va < s.offset + s.fileSize := by
    rw [Section.position]
    omega
  have hstop : s.position va + (data.extract (s.position va) (s.offset + s.fileSize)).size =
      s.offset + s.fileSize := by
    rw [ByteArray.size_extract]
    omega
  exact ⟨by omega, by rw [hstop]⟩

/-- In a loaded image both ways agree on an address exactly if, for the first section there, the
offset stays within 64 bits where the file has the whole content and only there. What the second way
accepts, the first one accepts too and leads to the same bytes, in any file that is not larger than
the address space. -/
theorem translatesAlike_iff (hload : Image.ofBytes data = .ok image) (va : Nat) :
    (image.TranslatesAlike va ↔ ∀ s, image.IsFirstAt va s →
      (s.position va < wordModulus ↔ s.offset + s.fileSize ≤ data.size)) ∧
    (data.size ≤ wordModulus → ∀ bytes, image.bytesFrom va = .ok bytes →
      ∃ offset, image.offsetOf va = .ok offset ∧ offset < data.size ∧
        data.extract offset (offset + bytes.size) = bytes) := by
  refine ⟨⟨fun h s hs => ?_, fun h => ⟨?_, ?_⟩⟩, ?_⟩
  · have haccepted := h.accepted
    simp only [offsetOf_eq_ok_iff, bytesFrom_eq_ok_iff hload] at haccepted
    constructor
    · intro hword
      obtain ⟨_, t, ht, hfits, -⟩ := haccepted.1 ⟨_, s, hs, hword, rfl⟩
      rwa [hs.unique ht]
    · intro hfits
      obtain ⟨_, t, ht, hword, -⟩ := haccepted.2 ⟨_, s, hs, hfits, rfl⟩
      rwa [hs.unique ht]
  · simp only [offsetOf_eq_ok_iff, bytesFrom_eq_ok_iff hload]
    constructor
    · rintro ⟨_, s, hs, hword, rfl⟩
      exact ⟨_, s, hs, (h s hs).1 hword, rfl⟩
    · rintro ⟨_, s, hs, hfits, rfl⟩
      exact ⟨_, s, hs, (h s hs).2 hfits, rfl⟩
  · intro offset bytes hoffset hbytes
    obtain ⟨s, hs, -, rfl⟩ := offsetOf_eq_ok_iff.1 hoffset
    obtain ⟨t, ht, hfits, rfl⟩ := (bytesFrom_eq_ok_iff hload).1 hbytes
    obtain rfl := hs.unique ht
    rw [data_of_ofBytes hload]
    exact extract_position hs hfits
  · intro hsize bytes hbytes
    obtain ⟨s, hs, hfits, rfl⟩ := (bytesFrom_eq_ok_iff hload).1 hbytes
    have hposition := extract_position hs hfits
    exact ⟨_, offsetOf_eq_ok_iff.2 ⟨s, hs, by omega, rfl⟩, hposition⟩

/-- Where two segments share an address, both ways go to the first one. -/
theorem translatesAlike_overlapImage :
    Image.ofBytes overlapFile = .ok overlapImage ∧ overlapImage.TranslatesAlike 0x8004 := by
  refine ⟨ofBytes_overlapFile, (translatesAlike_iff ofBytes_overlapFile 0x8004).1.2 ?_⟩
  intro s hs
  obtain rfl := hs.unique isFirstAt_lowSegment
  have hsize : overlapFile.size = 140 := by decide +kernel
  rw [hsize]
  decide

/-! ## A segment behind the end of the file -/

/-- A file that ends with its headers, where its only segment should begin. -/
def headersFile : ByteArray :=
  ⟨#[0x7f, 0x45, 0x4c, 0x46, 1, 1, 1, 0, 0, 0, 0, 0, 0, 0, 0, 0, 2, 0, 3, 0,
     1, 0, 0, 0, 0, 0, 0, 0, 0x34, 0, 0, 0, 0, 0, 0, 0, 0, 0, 0, 0,
     0x34, 0, 0x20, 0, 1, 0, 0x28, 0, 0, 0, 0, 0, 1, 0, 0, 0, 0x54, 0, 0, 0,
     0, 0x80, 0, 0, 0, 0, 0, 0, 8, 0, 0, 0, 8, 0, 0, 0, 4, 0, 0, 0,
     4, 0, 0, 0]⟩

def absentSegment : Section :=
  { name := "LOAD0", address := 0x8000, size := 8, offset := 84, fileSize := 8
    executable := false, writable := false, initialized := true }

def headersImage : Image :=
  { format := .elf
    sections := [absentSegment]
    symbols := []
    entry := 0
    pointerSize := .four
    order := .little
    arch := "386"
    os := "linux"
    data := headersFile }

theorem ofBytes_headersFile : Image.ofBytes headersFile = .ok headersImage :=
  ofBytes_eq_ok rfl (by decide +kernel) (eq_ok_of_toOption (by decide +kernel))

/-- The offset of its first byte is the length of the file, and there are no bytes to read. -/
theorem not_translatesAlike_headersImage :
    Image.ofBytes headersFile = .ok headersImage ∧ headersFile.size = 84 ∧
      headersImage.offsetOf 0x8000 = .ok 84 ∧
      headersImage.bytesFrom 0x8000 = .error .outOfBounds ∧
      ¬ headersImage.TranslatesAlike 0x8000 := by
  have hfirst : headersImage.IsFirstAt 0x8000 absentSegment :=
    sectionHolding?_eq_some_iff.1 (by decide)
  have hsize : headersFile.size = 84 := by decide +kernel
  have hshort : ¬ absentSegment.offset + absentSegment.fileSize ≤ headersFile.size := by
    rw [hsize]
    decide
  have hoffset : headersImage.offsetOf 0x8000 = .ok 84 :=
    offsetOf_eq_ok_iff.2 ⟨_, hfirst, by decide, rfl⟩
  have hbytes : headersImage.bytesFrom 0x8000 = .error .outOfBounds := by
    rw [bytesFrom_of_isFirstAt ofBytes_headersFile hfirst, if_neg hshort]
  refine ⟨ofBytes_headersFile, hsize, hoffset, hbytes, fun h => ?_⟩
  obtain ⟨bytes, hread⟩ := h.accepted.1 ⟨84, hoffset⟩
  rw [hbytes] at hread
  cases hread

end GoImage.Image
