import GoImage.Proofs.Image.Load

/-! # Where reads by address read

A read by address takes its bytes from one place of the file: the content of the first section that
holds the address, if the file has all of it. It succeeds exactly if that content reaches far
enough. -/

namespace GoImage

/-- Where the file holds the byte at an address of a section. -/
def Section.position (s : Section) (va : Nat) : Nat :=
  s.offset + (va - s.address)

namespace Image

/-- The first section with content at an address, in the order of the headers. -/
def IsFirstAt (image : Image) (va : Nat) (s : Section) : Prop :=
  (s.address ≤ va ∧ va < s.address + s.fileSize) ∧
    ∃ before after, image.sections = before ++ s :: after ∧
      ∀ t ∈ before, ¬ (t.address ≤ va ∧ va < t.address + t.fileSize)

variable {image : Image} {va : Nat} {s : Section}

theorem sectionHolding?_eq_some_iff : image.sectionHolding? va = some s ↔ image.IsFirstAt va s := by
  unfold sectionHolding? IsFirstAt
  rw [List.find?_eq_some_iff_append]
  simp [← Section.holds_iff]

theorem IsFirstAt.unique {t : Section} (hs : image.IsFirstAt va s) (ht : image.IsFirstAt va t) :
    s = t :=
  Option.some.inj ((sectionHolding?_eq_some_iff.2 hs).symm.trans (sectionHolding?_eq_some_iff.2 ht))

/-! ## Reads as parts of the bytes from an address on -/

theorem bytesAt_eq_ok_iff {bytes : ByteArray} {size : Nat} :
    image.bytesAt va size = .ok bytes ↔
      ∃ rest, image.bytesFrom va = .ok rest ∧ size ≤ rest.size ∧ bytes = rest.extract 0 size := by
  unfold bytesAt
  cases image.bytesFrom va with
  | error e => simp
  | ok rest =>
      by_cases hsize : size ≤ rest.size
      · simp [hsize, eq_comm]
      · simp [hsize]

theorem decodeAt_eq_ok_iff {α : Type} {decoder : Decoder α} {a : α} :
    image.decodeAt va decoder = .ok a ↔
      ∃ bytes, image.bytesFrom va = .ok bytes ∧ decoder.on (image.cursor bytes) = .ok a := by
  unfold decodeAt
  cases image.bytesFrom va with
  | error e => simp
  | ok bytes => simp

theorem pointer_on_cursor (bytes : ByteArray) :
    Decoder.pointer.on (image.cursor bytes) =
      image.order.readWord image.pointerSize.bytes bytes 0 := by
  simp only [Decoder.on, Decoder.run_pointer, Decoder.run_wordIn, cursor,
    PointerSize.ofBytes?_bytes]
  cases image.order.readWord image.pointerSize.bytes bytes 0 <;> rfl

theorem pointerAt_eq_ok_iff {n : Nat} :
    image.pointerAt va = .ok n ↔
      ∃ bytes, image.bytesAt va image.pointerSize.bytes = .ok bytes ∧
        n = image.order.decode bytes.data.toList := by
  unfold pointerAt
  simp only [decodeAt_eq_ok_iff, bytesAt_eq_ok_iff, pointer_on_cursor, ByteOrder.readWord]
  constructor
  · rintro ⟨rest, hrest, hword⟩
    split at hword
    · rename_i hsize
      cases hword
      exact ⟨_, ⟨rest, hrest, by omega, rfl⟩, by simp⟩
    · cases hword
  · rintro ⟨_, ⟨rest, hrest, hsize, rfl⟩, rfl⟩
    exact ⟨rest, hrest, by simp [hsize]⟩

/-! ## Loaded images -/

section Loaded

variable {data : ByteArray}

theorem content_of_isFirstAt (hload : Image.ofBytes data = .ok image) (hs : image.IsFirstAt va s) :
    image.content s = image.slice s.offset s.fileSize := by
  obtain ⟨⟨haddress, hend⟩, before, after, hsections, -⟩ := hs
  have hmem : s ∈ image.sections := by simp [hsections]
  exact if_pos (isFileBacked_of_mem hload hmem (by omega))

theorem bytesFrom_of_isFirstAt (hload : Image.ofBytes data = .ok image)
    (hs : image.IsFirstAt va s) :
    image.bytesFrom va =
      if s.offset + s.fileSize ≤ data.size then
        .ok (data.extract (s.position va) (s.offset + s.fileSize))
      else .error .outOfBounds := by
  have hcontent := content_of_isFirstAt hload hs
  unfold slice at hcontent
  rw [data_of_ofBytes hload] at hcontent
  by_cases hfits : s.offset + s.fileSize ≤ data.size
  · rw [if_pos hfits] at hcontent ⊢
    have hrange := hs.1
    have hsize : (data.extract s.offset (s.offset + s.fileSize)).size = s.fileSize := by
      rw [ByteArray.size_extract]
      omega
    rw [bytesFrom_eq (sectionHolding?_eq_some_iff.2 hs) hcontent (by omega), hsize,
      ByteArray.extract_extract, Nat.min_self]
    rfl
  · rw [if_neg hfits] at hcontent ⊢
    unfold bytesFrom
    rw [sectionHolding?_eq_some_iff.2 hs]
    dsimp only
    rw [hcontent]

theorem bytesFrom_eq_ok_iff {bytes : ByteArray} (hload : Image.ofBytes data = .ok image) :
    image.bytesFrom va = .ok bytes ↔
      ∃ s, image.IsFirstAt va s ∧ s.offset + s.fileSize ≤ data.size ∧
        bytes = data.extract (s.position va) (s.offset + s.fileSize) := by
  constructor
  · intro h
    cases hs : image.sectionHolding? va with
    | none =>
        unfold bytesFrom at h
        rw [hs] at h
        cases h
    | some s =>
        have hfirst := sectionHolding?_eq_some_iff.1 hs
        rw [bytesFrom_of_isFirstAt hload hfirst] at h
        split at h
        · rename_i hfits
          exact ⟨s, hfirst, hfits, (Except.ok.inj h).symm⟩
        · cases h
  · rintro ⟨s, hs, hfits, rfl⟩
    rw [bytesFrom_of_isFirstAt hload hs, if_pos hfits]

/-- Reading so many bytes at an address succeeds if the content of the first section there is in the
file and reaches that far. -/
theorem bytesAt_eq_ok_iff_of_ofBytes {bytes : ByteArray} {size : Nat}
    (hload : Image.ofBytes data = .ok image) :
    image.bytesAt va size = .ok bytes ↔
      ∃ s, image.IsFirstAt va s ∧ s.offset + s.fileSize ≤ data.size ∧
        va - s.address + size ≤ s.fileSize ∧
        bytes = data.extract (s.position va) (s.position va + size) := by
  -- A part at the front of what follows an address is a part of the file.
  have hpart {s : Section} (hs : image.IsFirstAt va s)
      (hfits : s.offset + s.fileSize ≤ data.size) :
      (data.extract (s.position va) (s.offset + s.fileSize)).size =
        s.fileSize - (va - s.address) := by
    have hrange := hs.1
    rw [ByteArray.size_extract, Section.position]
    omega
  simp only [bytesAt_eq_ok_iff, bytesFrom_eq_ok_iff hload]
  constructor
  · rintro ⟨_, ⟨s, hs, hfits, rfl⟩, hsize, rfl⟩
    rw [hpart hs hfits] at hsize
    have hrange := hs.1
    refine ⟨s, hs, hfits, by omega, ?_⟩
    rw [ByteArray.extract_extract, Nat.add_zero, Nat.min_eq_left (by rw [Section.position]; omega)]
  · rintro ⟨s, hs, hfits, hsize, rfl⟩
    refine ⟨_, ⟨s, hs, hfits, rfl⟩, by rw [hpart hs hfits]; omega, ?_⟩
    rw [ByteArray.extract_extract, Nat.add_zero, Nat.min_eq_left (by rw [Section.position]; omega)]

/-- Every read at an address goes to the content of the first section that holds it, at the place of
that address, and ends with that content. It succeeds if the whole content is in the file and the
read does not go beyond it. -/
theorem reads_within_first_section (hload : Image.ofBytes data = .ok image) (va : Nat) :
    (∀ size bytes, image.bytesAt va size = .ok bytes ↔
      ∃ s, image.IsFirstAt va s ∧ s.offset + s.fileSize ≤ data.size ∧
        va - s.address + size ≤ s.fileSize ∧
        bytes = data.extract (s.position va) (s.position va + size)) ∧
    (∀ bytes, image.bytesFrom va = .ok bytes ↔
      ∃ s, image.IsFirstAt va s ∧ s.offset + s.fileSize ≤ data.size ∧
        bytes = data.extract (s.position va) (s.offset + s.fileSize)) ∧
    (∀ (α : Type) (decoder : Decoder α) (a : α), image.decodeAt va decoder = .ok a ↔
      ∃ s, image.IsFirstAt va s ∧ s.offset + s.fileSize ≤ data.size ∧
        decoder.on (image.cursor (data.extract (s.position va) (s.offset + s.fileSize))) = .ok a) ∧
    (∀ n, image.pointerAt va = .ok n ↔
      ∃ s, image.IsFirstAt va s ∧ s.offset + s.fileSize ≤ data.size ∧
        va - s.address + image.pointerSize.bytes ≤ s.fileSize ∧
        n = image.order.decode (data.extract (s.position va)
          (s.position va + image.pointerSize.bytes)).data.toList) := by
  refine ⟨fun size bytes => bytesAt_eq_ok_iff_of_ofBytes hload,
    fun bytes => bytesFrom_eq_ok_iff hload, fun α decoder a => ?_, fun n => ?_⟩
  · simp only [decodeAt_eq_ok_iff, bytesFrom_eq_ok_iff hload]
    constructor
    · rintro ⟨_, ⟨s, hs, hfits, rfl⟩, ha⟩
      exact ⟨s, hs, hfits, ha⟩
    · rintro ⟨s, hs, hfits, ha⟩
      exact ⟨_, ⟨s, hs, hfits, rfl⟩, ha⟩
  · simp only [pointerAt_eq_ok_iff, bytesAt_eq_ok_iff_of_ofBytes hload]
    constructor
    · rintro ⟨_, ⟨s, hs, hfits, hsize, rfl⟩, hn⟩
      exact ⟨s, hs, hfits, hsize, hn⟩
    · rintro ⟨s, hs, hfits, hsize, hn⟩
      exact ⟨_, ⟨s, hs, hfits, hsize, rfl⟩, hn⟩

end Loaded

/-! ## Two segments over one address -/

/-- A file without sections, of two load segments. The second starts inside the first, and has more
bytes in the file than in memory. -/
def overlapFile : ByteArray :=
  ⟨(([0x464c457f, 0x00010101, 0, 0, 0x00030002, 1, 0, 52, 0, 0, 0x00200034, 0x00280002, 0,
      1, 116, 0x8000, 0, 8, 8, 4, 4,
      1, 124, 0x8004, 0, 16, 8, 4, 4,
      0x04030201, 0x08070605, 0x14131211, 0x18171615, 0x1c1b1a19, 0x201f1e1d] : List Nat).flatMap
    (littleEndianBytes 4)).toArray⟩

def lowSegment : Section :=
  { name := "LOAD0", address := 0x8000, size := 8, offset := 116, fileSize := 8
    executable := false, writable := false, initialized := true }

def highSegment : Section :=
  { name := "LOAD1", address := 0x8004, size := 8, offset := 124, fileSize := 8
    executable := false, writable := false, initialized := true }

def overlapImage : Image :=
  { format := .elf
    sections := [lowSegment, highSegment]
    symbols := []
    entry := 0
    pointerSize := .four
    order := .little
    arch := "386"
    os := "linux"
    data := overlapFile }

theorem ofBytes_overlapFile : Image.ofBytes overlapFile = .ok overlapImage :=
  ofBytes_eq_ok rfl (by decide +kernel) (eq_ok_of_toOption (by decide +kernel))

theorem isFirstAt_lowSegment : overlapImage.IsFirstAt 0x8004 lowSegment :=
  sectionHolding?_eq_some_iff.1 (by decide)

/-- At an address of both segments the first one is read, and a read that goes beyond it fails
although the second one would go on. -/
theorem reads_overlapImage :
    Image.ofBytes overlapFile = .ok overlapImage ∧
      overlapImage.pointerAt 0x8004 = .ok 0x08070605 ∧
      ∀ bytes, overlapImage.bytesAt 0x8004 5 ≠ .ok bytes := by
  obtain ⟨hbytes, -, -, hpointer⟩ := reads_within_first_section ofBytes_overlapFile 0x8004
  refine ⟨ofBytes_overlapFile, ?_, fun bytes h => ?_⟩
  · exact (hpointer _).2 ⟨lowSegment, isFirstAt_lowSegment, by decide +kernel, by decide,
      by decide +kernel⟩
  · obtain ⟨s, hs, -, hsize, -⟩ := (hbytes 5 bytes).1 h
    obtain rfl := hs.unique isFirstAt_lowSegment
    exact absurd hsize (by decide)

end Image

end GoImage
