import GoImage.BuildInfo.Blob
import GoImage.Proofs.Image.Named
import GoImage.Proofs.Image.Scan
import GoImage.Proofs.Run

/-! # How reading build information ends

Once the header is there, all that can go wrong is that the rest is cut off. The header is found in
the content of one section and read again by its address, though. There need not be such an address,
and there need not be a header at it. -/

namespace GoImage.BuildInfo

open Decoder

/-- The errors that say that build information is there and cannot be read to its end. -/
def IsTruncation : Error → Prop
  | .versionString _ | .moduleInfo _ | .stringPointers _ | .endMarkerMissing _ | .line _ _ => True
  | _ => False

theorem isTruncation_of_mapError {α : Type} {x : Except Error α} {f : Error → Error}
    (hf : ∀ e, IsTruncation (f e)) {e : Error} (h : x.mapError f = .error e) : IsTruncation e := by
  cases x with
  | ok a => cases h
  | error e' =>
      cases h
      exact hf e'

/-! ## Module information -/

theorem readLines_failsOnly (lines : List (List Char)) :
    FailsOnly IsTruncation (readLines lines) := by
  induction lines with
  | nil => exact .pure ()
  | cons line rest ih =>
      unfold readLines
      split
      · refine FailsOnly.get.bind fun before => ?_
        cases before.add (Line.of line) with
        | ok after => exact (FailsOnly.set after).bind fun _ => ih
        | error fault => exact FailsOnly.bind (.throw trivial) fun _ => ih
      · exact ih

theorem readModules_failsOnly (raw : ByteArray) : FailsOnly IsTruncation (readModules raw) := by
  unfold readModules
  rcases unframed raw with ⟨text, isCut⟩
  refine FailsOnly.get.bind fun info => ?_
  have hlines := readLines_failsOnly (Text.pieces '\n' (Utf8.lossy text).toList)
  cases hrun : (readText (Utf8.lossy text)).run { info } with
  | error e lines => exact (FailsOnly.set lines.info).bind fun _ => .throw (hlines _ _ _ hrun)
  | ok _ lines =>
      refine (FailsOnly.set lines.info).bind fun _ => ?_
      split
      · exact .throw trivial
      · exact .pure ()

/-! ## The header -/

/-- How many bytes of a header are read, apart from texts in place. -/
def neededSize (header : ByteArray) : Nat :=
  match header[14]?, header[15]? with
  | some size, some flags =>
    if flags.toNat.testBit 1 then headerSize
    else (PointerSize.ofBytes? size.toNat).elim 16 fun size => 16 + 2 * size.bytes
  | _, _ => 16

theorem neededSize_le (header : ByteArray) : neededSize header ≤ headerSize := by
  unfold neededSize headerSize
  split
  · split
    · exact Nat.le_refl 32
    · rename_i size _ _ _ _
      cases PointerSize.ofBytes? size.toNat with
      | none => decide
      | some size => cases size <;> decide
  · decide

theorem le_neededSize (header : ByteArray) : 16 ≤ neededSize header := by
  unfold neededSize headerSize
  split
  · split
    · decide
    · rename_i size _ _ _ _
      cases PointerSize.ofBytes? size.toNat with
      | none => exact Nat.le_refl 16
      | some size => exact Nat.le_add_right 16 _
  · exact Nat.le_refl 16

theorem readInline_failsOnly {header : ByteArray} (h : headerSize ≤ header.size) :
    FailsOnly IsTruncation (readInline header) := by
  unfold readInline
  rw [if_neg (by omega)]
  refine FailsOnly.bind (.ofExcept fun e =>
    isTruncation_of_mapError (f := .versionString) fun _ => trivial) fun p => ?_
  refine FailsOnly.bind (.modify _) fun _ => ?_
  refine FailsOnly.bind (.ofExcept fun e =>
    isTruncation_of_mapError (f := .moduleInfo) fun _ => trivial) fun p => ?_
  exact .pure _

theorem readInline_of_short {header : ByteArray} (h : header.size < headerSize)
    (info : BuildInfo) : (readInline header).run info = .error .outOfBounds info := by
  unfold readInline
  rw [if_pos h]
  rfl

/-- The two pointers of a header. -/
def headerPointers (header : ByteArray) (order : ByteOrder) (size : PointerSize) :
    Except Error (Nat × Nat) :=
  (do seek 16; pointerPair : Decoder (Nat × Nat)).on
    { data := header, order, pointerSize := size.bytes }

theorem exists_headerPointers {header : ByteArray} (order : ByteOrder) {size : PointerSize}
    (h : 16 + 2 * size.bytes ≤ header.size) :
    ∃ pointers, headerPointers header order size = .ok pointers := by
  have hsize := PointerSize.ofBytes?_bytes size
  have hseek : ¬ header.size < 16 := by omega
  have hfirst : 16 + size.bytes ≤ header.size := by omega
  have hsecond : 16 + size.bytes + size.bytes ≤ header.size := by omega
  simp [-bind_pure_comp, headerPointers, pointerPair, Decoder.on, run_seek, run_pointer,
    run_wordIn, ByteOrder.readWord, hsize, hseek, hfirst, hsecond]

theorem headerPointers_of_short {header : ByteArray} (order : ByteOrder) {size : PointerSize}
    (h : header.size < 16 + 2 * size.bytes) :
    headerPointers header order size = .error .outOfBounds := by
  have hsize := PointerSize.ofBytes?_bytes size
  by_cases hseek : header.size < 16
  · simp [headerPointers, Decoder.on, run_seek, hseek]
  · by_cases hfirst : 16 + size.bytes ≤ header.size
    · have hsecond : ¬ 16 + size.bytes + size.bytes ≤ header.size := by omega
      simp [-bind_pure_comp, headerPointers, pointerPair, Decoder.on, run_seek, run_pointer,
        run_wordIn, ByteOrder.readWord, hsize, hseek, hfirst, hsecond]
    · simp [-bind_pure_comp, headerPointers, pointerPair, Decoder.on, run_seek, run_pointer,
        run_wordIn, ByteOrder.readWord, hsize, hseek, hfirst]

theorem readIndirect_failsOnly (image : Image) {header : ByteArray} (order : ByteOrder)
    {size : Nat} (h : (PointerSize.ofBytes? size).elim 16 (fun size => 16 + 2 * size.bytes) ≤
      header.size) :
    FailsOnly IsTruncation (readIndirect image header order size) := by
  unfold readIndirect
  cases hsize : PointerSize.ofBytes? size with
  | none => exact .throw trivial
  | some size =>
      rw [hsize] at h
      obtain ⟨pointers, hpointers⟩ := exists_headerPointers order h
      refine FailsOnly.bind (.ofExcept fun e he => ?_) fun p => ?_
      · cases hpointers.symm.trans he
      refine FailsOnly.bind (.ofExcept fun e =>
        isTruncation_of_mapError (f := .versionString) fun _ => trivial) fun p => ?_
      refine FailsOnly.bind (.modify _) fun _ => .ofExcept fun e =>
        isTruncation_of_mapError (f := .moduleInfo) fun _ => trivial

theorem readIndirect_of_short (image : Image) {header : ByteArray} (order : ByteOrder)
    {size : PointerSize} (h : header.size < 16 + 2 * size.bytes) (info : BuildInfo) :
    (readIndirect image header order size.bytes).run info = .error .outOfBounds info := by
  have hpointers := headerPointers_of_short order h
  unfold headerPointers at hpointers
  unfold readIndirect
  rw [PointerSize.ofBytes?_bytes]
  dsimp only
  rw [EStateM.run_bind, hpointers]
  rfl

/-- Reads the build information behind a header. -/
def readHeader (image : Image) (header : ByteArray) : Reading Unit := do
  match header[14]?, header[15]? with
  | some size, some flags =>
    let order := if flags.toNat.testBit 0 then ByteOrder.big else .little
    readModules (← if flags.toNat.testBit 1 then readInline header
      else readIndirect image header order size.toNat)
  | _, _ => throw .aborted

theorem readHeader_failsOnly (image : Image) {header : ByteArray}
    (h : neededSize header ≤ header.size) : FailsOnly IsTruncation (readHeader image header) := by
  have hsize : 14 < header.size := by
    have := le_neededSize header
    omega
  have hflags : 15 < header.size := by
    have := le_neededSize header
    omega
  unfold neededSize at h
  unfold readHeader
  rw [getElem?_pos header 14 hsize, getElem?_pos header 15 hflags] at h ⊢
  dsimp only at h ⊢
  split at h
  · rename_i hinline
    rw [if_pos hinline]
    exact (readInline_failsOnly h).bind readModules_failsOnly
  · rename_i hinline
    rw [if_neg hinline]
    exact (readIndirect_failsOnly image _ h).bind readModules_failsOnly

theorem readHeader_of_short (image : Image) {header : ByteArray} (hflags : 16 ≤ header.size)
    (h : header.size < neededSize header) (info : BuildInfo) :
    (readHeader image header).run info = .error .outOfBounds info := by
  have hsize : 14 < header.size := by omega
  have hflags' : 15 < header.size := by omega
  unfold neededSize at h
  unfold readHeader
  rw [getElem?_pos header 14 hsize, getElem?_pos header 15 hflags'] at h ⊢
  dsimp only at h ⊢
  split at h
  · rename_i hinline
    rw [if_pos hinline, EStateM.run_bind, readInline_of_short h]
  · rename_i hinline
    cases hpointers : PointerSize.ofBytes? header[14].toNat with
    | none =>
        rw [hpointers] at h
        exact absurd hflags (Nat.not_le.2 h)
    | some pointers =>
        rw [hpointers] at h
        rw [if_neg hinline, EStateM.run_bind, ← PointerSize.bytes_of_ofBytes? hpointers,
          readIndirect_of_short image _ h]

/-- The flags are looked up without a check. -/
theorem readHeader_of_no_flags (image : Image) {header : ByteArray} (h : header.size < 16)
    (info : BuildInfo) : (readHeader image header).run info = .error .aborted info := by
  have hflags : header[15]? = none := getElem?_neg header 15 (by omega)
  unfold readHeader
  rw [hflags]
  cases header[14]? <;> rfl

/-! ## The whole run -/

/-- Whether the header can be read again at the address where it was found. -/
def HeaderThere (image : Image) (va : Nat) : Prop :=
  ∃ header, image.bytesFrom va = .ok header ∧ neededSize header ≤ header.size

section Read

variable {image : Image}

theorem read_of_absent (h : locate? image = none) (info : BuildInfo) :
    (read image).run info = .error .buildInfoAbsent info := by
  unfold read
  rw [h]
  rfl

theorem read_of_located {va : Nat} (hva : locate? image = some va) (hlt : va < wordModulus) :
    read image = ofExcept (image.bytesFrom va) >>= readHeader image := by
  unfold read
  rw [hva]
  dsimp only
  rw [checkAddress_eq_ok_iff.2 hlt]
  rfl

theorem read_of_no_address {va : Nat} (hva : locate? image = some va) (hle : wordModulus ≤ va)
    (info : BuildInfo) : (read image).run info = .error .aborted info := by
  unfold read
  rw [hva]
  dsimp only
  rw [checkAddress_eq_error_iff.2 ⟨rfl, hle⟩]
  rfl

theorem read_of_there {va : Nat} (hva : locate? image = some va) (hlt : va < wordModulus)
    (h : HeaderThere image va) : FailsOnly IsTruncation (read image) := by
  obtain ⟨header, hheader, hneeded⟩ := h
  rw [read_of_located hva hlt, hheader]
  exact readHeader_failsOnly image hneeded

theorem read_of_no_flags {va : Nat} {header : ByteArray} (hva : locate? image = some va)
    (hlt : va < wordModulus) (hheader : image.bytesFrom va = .ok header) (h : header.size < 16)
    (info : BuildInfo) : (read image).run info = .error .aborted info := by
  rw [read_of_located hva hlt, hheader]
  exact readHeader_of_no_flags image h info

theorem read_of_not_there {va : Nat} (hva : locate? image = some va) (hlt : va < wordModulus)
    (h : ¬ HeaderThere image va)
    (hflags : ∀ header, image.bytesFrom va = .ok header → 16 ≤ header.size) (info : BuildInfo) :
    (read image).run info = .error .outOfBounds info := by
  rw [read_of_located hva hlt]
  cases hheader : image.bytesFrom va with
  | error e =>
      obtain rfl := Image.bytesFrom_error hheader
      rfl
  | ok header =>
      have hshort : header.size < neededSize header :=
        Nat.lt_of_not_le fun hle => h ⟨header, hheader, hle⟩
      exact readHeader_of_short image (hflags header hheader) hshort info

end Read

/-! ## Where the header is found -/

/-- No address is held by two sections, and no section goes beyond the last address. -/
structure Separate (image : Image) : Prop where
  disjoint : image.sections.Pairwise fun s t => ∀ va, ¬ (s.holds va = true ∧ t.holds va = true)
  bounded : ∀ s ∈ image.sections, s.address + s.fileSize ≤ wordModulus

/-- A header is found in the content of a section, with as many bytes behind it as it needs. -/
theorem exists_section_of_locate? {image : Image} {va : Nat} (h : locate? image = some va) :
    ∃ s ∈ image.sections, ∃ content pos, image.content s = .ok content ∧
      pos + headerSize ≤ content.size ∧ va = s.address + pos := by
  obtain ⟨s, hs, hscan⟩ := List.exists_of_findSome?_eq_some h
  obtain ⟨content, pos, hcontent, -, hsize, hfound⟩ := Image.exists_of_scanSection? hscan
  refine ⟨s, Image.mem_of_mem_sectionsByPreference hs, content, pos, hcontent, hsize, ?_⟩
  split at hfound
  · exact (Option.some.inj hfound).symm
  · cases hfound

/-- In an image whose sections are separate, the header is read where it was found. -/
theorem exists_header_of_separate {image : Image} (hseparate : Separate image) {va : Nat}
    (h : locate? image = some va) :
    va < wordModulus ∧
      ∃ header, image.bytesFrom va = .ok header ∧ headerSize ≤ header.size := by
  obtain ⟨s, hs, content, pos, hcontent, hfits, rfl⟩ := exists_section_of_locate? h
  have hsize := Image.size_content_le hcontent
  have hheader : headerSize = 32 := rfl
  have hbound := hseparate.bounded s hs
  have hholds : s.holds (s.address + pos) = true := by
    rw [Section.holds_iff]
    omega
  have hholding : image.sectionHolding? (s.address + pos) = some s :=
    find?_eq_some_of_pairwise (hseparate.disjoint.imp fun hst => hst _) hs hholds
  refine ⟨by omega, _, Image.bytesFrom_eq hholding hcontent (by omega), ?_⟩
  rw [ByteArray.size_extract]
  omega

/-- Why the run is aborted: the header that is found lies behind the last address, or fewer bytes
than up to its flags are there when it is read again. -/
def Aborts (image : Image) : Prop :=
  ∃ va, locate? image = some va ∧
    (wordModulus ≤ va ∨ ∃ header, image.bytesFrom va = .ok header ∧ header.size < 16)

/-- Why the header cannot be read again where it was found, although no run is aborted. -/
def Misses (image : Image) : Prop :=
  ∃ va, locate? image = some va ∧ va < wordModulus ∧ ¬ HeaderThere image va ∧
    ∀ header, image.bytesFrom va = .ok header → 16 ≤ header.size

/-- The ways in which reading ends without success. -/
theorem read_cases {image : Image} {e : Error} {info : BuildInfo}
    (h : (read image).run {} = .error e info) :
    (e = .buildInfoAbsent ∧ info = {}) ∨ IsTruncation e ∨ (e = .outOfBounds ∧ Misses image) ∨
      (e = .aborted ∧ Aborts image) := by
  cases hva : locate? image with
  | none =>
      rw [read_of_absent hva] at h
      cases h
      exact .inl ⟨rfl, rfl⟩
  | some va =>
      by_cases hlt : va < wordModulus
      · by_cases hthere : HeaderThere image va
        · exact .inr (.inl (read_of_there hva hlt hthere _ _ _ h))
        · by_cases hflags : ∀ header, image.bytesFrom va = .ok header → 16 ≤ header.size
          · rw [read_of_not_there hva hlt hthere hflags] at h
            cases h
            exact .inr (.inr (.inl ⟨rfl, va, hva, hlt, hthere, hflags⟩))
          · simp only [not_forall, Nat.not_le] at hflags
            obtain ⟨header, hheader, hshort⟩ := hflags
            rw [read_of_no_flags hva hlt hheader hshort] at h
            cases h
            exact .inr (.inr (.inr ⟨rfl, va, hva, .inr ⟨header, hheader, hshort⟩⟩))
      · have hle := Nat.not_lt.1 hlt
        rw [read_of_no_address hva hle] at h
        cases h
        exact .inr (.inr (.inr ⟨rfl, va, hva, .inl hle⟩))

theorem read_of_aborts {image : Image} (h : Aborts image) (info : BuildInfo) :
    (read image).run info = .error .aborted info := by
  obtain ⟨va, hva, hle | ⟨header, hheader, hshort⟩⟩ := h
  · exact read_of_no_address hva hle info
  · by_cases hlt : va < wordModulus
    · exact read_of_no_flags hva hlt hheader hshort info
    · exact read_of_no_address hva (Nat.not_lt.1 hlt) info

/-- In an image whose sections are separate, the header is there when it is read again. -/
theorem not_aborts_of_separate {image : Image} (hseparate : Separate image) : ¬ Aborts image := by
  rintro ⟨va, hva, habort⟩
  obtain ⟨hlt, header, hheader, hsize⟩ := exists_header_of_separate hseparate hva
  have hle : headerSize = 32 := rfl
  rcases habort with hle' | ⟨header', hheader', hshort⟩
  · omega
  · obtain rfl := Except.ok.inj (hheader.symm.trans hheader')
    omega

/-- Reading ends well, or finds nothing and keeps nothing, or finds that something is cut off, with
two exceptions: the header is not there when it is read again, or the run is aborted for want of an
address or of flags. Where the header is there, neither happens. In an image whose sections are
separate it always is. -/
theorem read_outcome (image : Image) :
    (∀ e info, (read image).run {} = .error e info →
      (e = .buildInfoAbsent ∧ info = {}) ∨ IsTruncation e ∨ e = .outOfBounds ∨ e = .aborted) ∧
    ((∃ info, (read image).run {} = .error .outOfBounds info) ↔ Misses image) ∧
    ((∃ info, (read image).run {} = .error .aborted info) ↔ Aborts image) ∧
    (∀ va, locate? image = some va → va < wordModulus → HeaderThere image va →
      FailsOnly IsTruncation (read image)) ∧
    (Separate image → ∀ va, locate? image = some va → va < wordModulus ∧
      ∃ header, image.bytesFrom va = .ok header ∧ headerSize ≤ header.size ∧
        HeaderThere image va) := by
  refine ⟨fun e info h => ?_, ⟨?_, ?_⟩, ⟨?_, fun h => ⟨{}, read_of_aborts h {}⟩⟩,
    fun va => read_of_there, fun hseparate va hva => ?_⟩
  · exact (read_cases h).imp_right (.imp_right (.imp And.left And.left))
  · rintro ⟨info, h⟩
    rcases read_cases h with ⟨⟨⟩, -⟩ | ⟨⟨⟩⟩ | ⟨-, hmisses⟩ | ⟨⟨⟩, -⟩
    exact hmisses
  · rintro ⟨va, hva, hlt, hthere, hflags⟩
    exact ⟨{}, read_of_not_there hva hlt hthere hflags {}⟩
  · rintro ⟨info, h⟩
    rcases read_cases h with ⟨⟨⟩, -⟩ | ⟨⟨⟩⟩ | ⟨⟨⟩, -⟩ | ⟨-, haborts⟩
    exact haborts
  · obtain ⟨hlt, header, hheader, hsize⟩ := exists_header_of_separate hseparate hva
    exact ⟨hlt, header, hheader, hsize, header, hheader,
      Nat.le_trans (neededSize_le header) hsize⟩

/-- A header in a section of its own, and in front of it a section at the same address that has its
twelve bytes of content at an offset. -/
def shadowedImage (offset : Nat) : Image :=
  Elf.File.image
    { width := .eight
      order := .little
      sections := [
        { name := ".rodata", address := 0x600000, size := 12, offset, fileSize := 12
          executable := false, writable := false, initialized := true },
        { name := ".go.buildinfo", address := 0x600000, size := 32
          offset := Elf.fileHeaderSize .eight, fileSize := 32
          executable := false, writable := true, initialized := true }]
      symbols := []
      content := magic ++ [8, 2] ++ List.replicate 16 0 }

/-- The header is found, and read through the other section. If the content of that one is not in
the file, an error of reading escapes; if it is, the run is aborted for want of the flags. -/
theorem read_shadowedImage :
    Image.ofBytes (shadowedImage 0x1000).data = .ok (shadowedImage 0x1000) ∧
      (read (shadowedImage 0x1000)).run {} = .error .outOfBounds {} ∧
      Image.ofBytes (shadowedImage 0x40).data = .ok (shadowedImage 0x40) ∧
      (read (shadowedImage 0x40)).run {} = .error .aborted {} := by
  have hfound : ∀ offset ∈ [0x1000, 0x40], locate? (shadowedImage offset) = some 0x600000 := by
    decide +kernel
  refine ⟨?_, ?_, ?_, ?_⟩
  · exact Elf.File.Fits.ofBytes_image (by decide +kernel)
  · have hmissing : (shadowedImage 0x1000).bytesFrom 0x600000 = .error .outOfBounds := by
      decide +kernel
    rw [read_of_located (hfound _ (by decide)) (by decide), hmissing]
    rfl
  · exact Elf.File.Fits.ofBytes_image (by decide +kernel)
  · have hshort : (shadowedImage 0x40).bytesFrom 0x600000 = .ok (magic.take 12).toByteArray :=
      eq_ok_of_toOption (by decide +kernel)
    exact read_of_aborts ⟨_, hfound _ (by decide), .inr ⟨_, hshort, by decide +kernel⟩⟩ {}

end GoImage.BuildInfo
