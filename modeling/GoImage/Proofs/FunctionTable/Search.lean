import GoImage.FunctionTable.Search
import GoImage.Proofs.Image.Named
import GoImage.Proofs.Image.Scan
import Mathlib.Data.Option.Basic

/-! # Where a function table is found

A table that is found by the name of its section or by its symbol is read at the address where it
was found. One that is found by a scan has been seen in the content of a section, and is read at its
address only where no other section stands in front. -/

namespace GoImage.FunctionTable

variable {order : ByteOrder} {data : ByteArray} {layout : Layout} {image : Image} {va : Nat}
  {location : Location}

/-! ## The fixed part of a header -/

/-- How a header of a layout starts: with the magic number, two zero bytes, the smallest step
between instructions, and the width of a pointer. -/
structure HeaderStart (order : ByteOrder) (data : ByteArray) (layout : Layout) : Prop where
  size : 8 ≤ data.size
  magic : order.readWord 4 data 0 = .ok layout.magic
  padding : data[4]? = some 0 ∧ data[5]? = some 0
  quantum : ∃ n, data[6]? = some n ∧ (n = 1 ∨ n = 2 ∨ n = 4)
  pointerSize : ∃ n, data[7]? = some n ∧ (n = 4 ∨ n = 8)

theorem exists_pointerSize_iff {n : UInt8} :
    (∃ size, PointerSize.ofBytes? n.toNat = some size) ↔ n = 4 ∨ n = 8 := by
  constructor
  · rintro ⟨size, h⟩
    have hn := PointerSize.bytes_of_ofBytes? h
    cases size with
    | four => exact .inl (UInt8.toNat_inj.1 hn.symm)
    | eight => exact .inr (UInt8.toNat_inj.1 hn.symm)
  · rintro (rfl | rfl)
    · exact ⟨.four, rfl⟩
    · exact ⟨.eight, rfl⟩

/-- The check accepts exactly the starts of headers. -/
theorem layoutAt?_eq_some_iff :
    layoutAt? order data 0 = some layout ↔ HeaderStart order data layout := by
  unfold layoutAt?
  simp only [Option.bind_eq_bind, Option.bind_eq_some_iff, Nat.zero_add, Option.guard_eq_some']
  constructor
  · rintro ⟨magic, hmagic, named, hnamed, _, hpadding, quantum, hquantum, _, hstep, size, hsize,
      width, hwidth, hlayout⟩
    cases hlayout
    have hend : 7 < data.size := by
      by_contra hshort
      rw [getElem?_neg data 7 hshort] at hsize
      cases hsize
    refine ⟨hend, ?_, hpadding, ⟨quantum, hquantum, hstep⟩,
      ⟨size, hsize, exists_pointerSize_iff.1 ⟨width, hwidth⟩⟩⟩
    rw [eq_ok_of_toOption hmagic, Layout.magic_of_ofMagic? hnamed]
  · rintro ⟨-, hmagic, hpadding, ⟨quantum, hquantum, hstep⟩, ⟨size, hsize, hwidth⟩⟩
    obtain ⟨width, hwidth⟩ := exists_pointerSize_iff.2 hwidth
    rw [hmagic]
    exact ⟨layout.magic, rfl, layout, Layout.ofMagic?_magic layout, (), hpadding, quantum, hquantum,
      (), hstep, size, hsize, width, hwidth, rfl⟩

theorem layoutAt?_extract {pos : Nat} (h : pos + 8 ≤ data.size) :
    layoutAt? order (data.extract pos data.size) 0 = layoutAt? order data pos := by
  have hmagic := order.readWord_extract (Nat.le_refl data.size)
    (show pos + 0 + 4 ≤ data.size by omega)
  simp [layoutAt?, getElem?_extract_size, hmagic]

/-! ## The whole header -/

/-- The words behind the start of a header do not contradict anything; they can only be missing. -/
theorem headerWords_failsOnly (quantum : Nat) (size : PointerSize) :
    FailsOnly (fun e => ∀ cause, e ≠ .functionTable cause)
      (headerWords layout va quantum size) := by
  have hpointer : FailsOnly (fun e => ∀ cause, e ≠ .functionTable cause) Decoder.pointer :=
    .pointer (fun _ => nofun) fun _ _ => nofun
  unfold headerWords
  refine .bind (.seek (fun _ => nofun) 8) fun _ => .bind hpointer fun functionCount => ?_
  cases layout with
  | go1_2 => exact .pure _
  | go1_16 =>
      exact .bind hpointer fun _ => .bind hpointer fun _ => .bind hpointer fun _ =>
        .bind hpointer fun _ => .bind hpointer fun _ => .bind hpointer fun _ => .pure _
  | go1_18 | go1_20 =>
      exact .bind hpointer fun _ => .bind hpointer fun _ => .bind hpointer fun _ =>
        .bind hpointer fun _ => .bind hpointer fun _ => .bind hpointer fun _ =>
        .bind hpointer fun _ => .pure _

theorem read_ne_functionTable (hdata : image.bytesFrom va = .ok data) {named : Layout}
    (h : HeaderStart image.order data named) (cause : TableFault) :
    read image va layout ≠ .error (.functionTable cause) := by
  obtain ⟨-, -, -, ⟨quantum, hquantum, -⟩, ⟨size, hsize, hwidth⟩⟩ := h
  obtain ⟨width, hwidth⟩ := exists_pointerSize_iff.2 hwidth
  intro herror
  have hheader : readHeader image.order data va layout =
      (headerWords layout va quantum.toNat width).on
        { data, order := image.order, pointerSize := width.bytes } := by
    unfold readHeader
    rw [hquantum, hsize]
    dsimp only
    rw [hwidth]
  unfold read at herror
  rw [hdata] at herror
  change (readHeader image.order data va layout >>= _) = _ at herror
  rw [hheader] at herror
  cases hwords : (headerWords layout va quantum.toNat width).on
      { data, order := image.order, pointerSize := width.bytes } with
  | ok header =>
      rw [hwords] at herror
      cases herror
  | error e =>
      rw [hwords] at herror
      cases herror
      exact (headerWords_failsOnly quantum.toNat width).on hwords cause rfl

/-! ## Candidates -/

theorem accept?_eq_some_iff {source : Source} :
    accept? image none source va = some location ↔
      ∃ data, image.bytesFrom va = .ok data ∧ ∃ layout, HeaderStart image.order data layout ∧
        location = ⟨va, layout, source⟩ := by
  unfold accept?
  cases image.bytesFrom va with
  | error e => simp [Except.toOption]
  | ok data =>
      simp only [← layoutAt?_eq_some_iff]
      cases hlayout : layoutAt? image.order data 0 with
      | none => simp [Except.toOption, hlayout]
      | some layout => simp [Except.toOption, hlayout, eq_comm]

/-- Whether the bytes at a location start a header of its layout. -/
def ShowsHeader (image : Image) (location : Location) : Prop :=
  ∃ data, image.bytesFrom location.va = .ok data ∧ HeaderStart image.order data location.layout

theorem showsHeader_of_accept? {source : Source}
    (h : accept? image none source va = some location) :
    ShowsHeader image location ∧ location.source = source := by
  obtain ⟨data, hdata, layout, hlayout, rfl⟩ := accept?_eq_some_iff.1 h
  exact ⟨⟨data, hdata, hlayout⟩, rfl⟩

theorem exists_of_scanSection? {s : Section} (h : scanSection? image none s = some location) :
    ∃ content pos layout, image.content s = .ok content ∧ pos + 8 ≤ content.size ∧
      layoutAt? image.order content pos = some layout ∧
      location = ⟨s.address + pos, layout, .scan⟩ := by
  obtain ⟨content, pos, hcontent, -, hpos, hfound⟩ := Image.exists_of_scanSection? h
  obtain ⟨-, hfound⟩ := Option.ite_none_right_eq_some.1 hfound
  split at hfound
  · rename_i layout hlayout
    split at hfound
    · cases hfound
      exact ⟨content, pos, layout, hcontent, hpos, hlayout, rfl⟩
    · cases hfound
  · cases hfound

/-- Whether a table that was found by a scan has been seen in the first section at its address. -/
def IsReadBack (image : Image) (location : Location) : Prop :=
  location.source = .scan → ∃ s ∈ image.fileBackedSections,
    scanSection? image none s = some location ∧ image.sectionHolding? location.va = some s

theorem showsHeader_of_scanSection? {s : Section} (h : scanSection? image none s = some location)
    (hfirst : image.sectionHolding? location.va = some s) : ShowsHeader image location := by
  obtain ⟨content, pos, layout, hcontent, hpos, hlayout, rfl⟩ := exists_of_scanSection? h
  refine ⟨_, Image.bytesFrom_of_scanned hfirst hcontent (by omega), ?_⟩
  rw [← layoutAt?_eq_some_iff, layoutAt?_extract hpos]
  exact hlayout

theorem isReadBack_of_disjoint {s : Section} (hs : s ∈ image.fileBackedSections)
    (h : scanSection? image none s = some location) (hload : Image.ofBytes data = .ok image)
    (hdisjoint : image.Disjoint) : IsReadBack image location := by
  intro _
  obtain ⟨content, pos, layout, hcontent, hpos, hlayout, rfl⟩ := exists_of_scanSection? h
  have hsize := Image.size_content_le hcontent
  have hholds : s.holds (s.address + pos) = true := by
    rw [Section.holds_iff]
    omega
  exact ⟨s, hs, h, hdisjoint.sectionHolding?_eq hload hs hholds⟩

/-- What is found is answered with if it is at an address. -/
theorem locate_of_some (h : locate? image none = some location) :
    locate image none = (checkAddress location.va).map fun _ => location := by
  simp only [locate, pure_bind, h]
  cases checkAddress location.va <;> rfl

theorem locate_of_none (h : locate? image none = none) :
    locate image none = .error .unknownVersion := by
  simp only [locate, pure_bind, h]
  rfl

theorem locate_of_release {release : String} (hrelease : Layout.ofRelease release = .ok layout)
    (h : locate? image (some layout) = some location) :
    locate image (some release) = (checkAddress location.va).map fun _ => location := by
  unfold locate
  dsimp only
  rw [hrelease]
  simp only [bind, Except.bind, Functor.map, Except.map, h]
  cases checkAddress location.va <;> rfl

theorem locate_of_release_none {release : String} (hrelease : Layout.ofRelease release = .ok layout)
    (h : locate? image (some layout) = none) :
    locate image (some release) = .error .unknownVersion := by
  unfold locate
  dsimp only
  rw [hrelease]
  simp only [bind, Except.bind, Functor.map, Except.map, h]
  rfl

theorem locate_eq_ok_iff :
    locate image none = .ok location ↔
      locate? image none = some location ∧ location.va < wordModulus := by
  cases hfound : locate? image none with
  | none => simp [locate_of_none hfound]
  | some found =>
      rw [locate_of_some hfound, checkAddress]
      split
      · rename_i hva
        exact ⟨fun h => ⟨congrArg some (Except.ok.inj h), Except.ok.inj h ▸ hva⟩,
          fun h => congrArg Except.ok (Option.some.inj h.1)⟩
      · rename_i hva
        exact ⟨nofun, fun h => absurd (Option.some.inj h.1 ▸ h.2) hva⟩

/-- A table is found at an address that has a name, where it is read, or by the scan of a
section. -/
theorem locate?_cases (h : locate? image none = some location) :
    (ShowsHeader image location ∧ location.source ≠ .scan) ∨
      ∃ s ∈ image.fileBackedSections, scanSection? image none s = some location := by
  unfold locate? at h
  rcases Option.or_eq_some_iff.1 h with h | ⟨-, h⟩
  · rcases Option.or_eq_some_iff.1 h with h | ⟨-, h⟩
    · obtain ⟨s, -, hs⟩ := List.exists_of_findSome?_eq_some h
      obtain ⟨hshows, hsource⟩ := showsHeader_of_accept? hs
      exact .inl ⟨hshows, by simp [hsource]⟩
    · obtain ⟨va, -, hva⟩ := Option.bind_eq_some_iff.1 h
      obtain ⟨hshows, hsource⟩ := showsHeader_of_accept? hva
      exact .inl ⟨hshows, by simp [hsource]⟩
  · exact .inr (List.exists_of_findSome?_eq_some h)

/-- The bytes at the address of a table that was found start a header of its layout, so that reading
the table there meets no contradiction. The exception is a table that a scan has seen in a section
that is not the first one at this address. There is none in a loaded image whose sections are
disjoint. -/
theorem showsHeader_of_locate (h : locate image none = .ok location) :
    (IsReadBack image location →
      ShowsHeader image location ∧
        ∀ cause, read image location.va location.layout ≠ .error (.functionTable cause)) ∧
    (∀ data, Image.ofBytes data = .ok image → image.Disjoint → IsReadBack image location) := by
  have hcases := locate?_cases (locate_eq_ok_iff.1 h).1
  constructor
  · intro hback
    have hshows : ShowsHeader image location := by
      rcases hcases with ⟨hshows, -⟩ | ⟨s, -, hscan⟩
      · exact hshows
      · obtain ⟨content, pos, layout, -, -, -, hlocation⟩ := exists_of_scanSection? hscan
        obtain ⟨t, -, hscan', hfirst⟩ := hback (by rw [hlocation])
        exact showsHeader_of_scanSection? hscan' hfirst
    obtain ⟨data, hdata, hstart⟩ := hshows
    exact ⟨⟨data, hdata, hstart⟩, read_ne_functionTable hdata hstart⟩
  · intro data hload hdisjoint
    rcases hcases with ⟨-, hsource⟩ | ⟨s, hs, hscan⟩
    · exact fun hscan => absurd hscan hsource
    · exact isReadBack_of_disjoint hs hscan hload hdisjoint

/-! ## A table among notes -/

/-- What a compiler notes about itself. -/
def noteBytes : ByteArray :=
  "GCC: (GNU) 13.2.0".toUTF8

/-- The start of a header that counts one function. -/
def headerBytes : ByteArray :=
  ⟨#[0xf1, 0xff, 0xff, 0xff, 0, 0, 1, 4, 1, 0, 0, 0]⟩

def noteSection : Section :=
  { name := ".comment", address := 0, size := 17, offset := Elf.fileHeaderSize .four, fileSize := 17
    executable := false, writable := false, initialized := true }

/-- A section of debug information that holds the start of a header. -/
def debugSection (va : Nat) : Section :=
  { name := ".debug_info", address := va, size := 12, offset := Elf.fileHeaderSize .four + 17
    fileSize := 12, executable := false, writable := false, initialized := true }

/-- A file without a function table of its own, with debug information at an address. -/
def debugImage (va : Nat) : Image :=
  Elf.File.image
    { width := .four, order := .little, sections := [noteSection, debugSection va], symbols := []
      content := noteBytes.data.toList ++ headerBytes.data.toList }

theorem ofBytes_debugImage :
    Image.ofBytes (debugImage 0).data = .ok (debugImage 0) ∧
      Image.ofBytes (debugImage 0x1000).data = .ok (debugImage 0x1000) :=
  ⟨Elf.File.Fits.ofBytes_image (by decide +kernel), Elf.File.Fits.ofBytes_image (by decide +kernel)⟩

/-- Debug information at an address of its own is read where the scan has found it. -/
theorem showsHeader_debugImage :
    Image.ofBytes (debugImage 0x1000).data = .ok (debugImage 0x1000) ∧
      locate (debugImage 0x1000) none = .ok ⟨0x1000, .go1_20, .scan⟩ ∧
      ShowsHeader (debugImage 0x1000) ⟨0x1000, .go1_20, .scan⟩ := by
  have hlocate : locate (debugImage 0x1000) none = .ok ⟨0x1000, .go1_20, .scan⟩ :=
    eq_ok_of_toOption (by decide +kernel)
  have hback : IsReadBack (debugImage 0x1000) ⟨0x1000, .go1_20, .scan⟩ := fun _ =>
    ⟨debugSection 0x1000, by decide +kernel, by decide +kernel, by decide⟩
  exact ⟨ofBytes_debugImage.2, hlocate, ((showsHeader_of_locate hlocate).1 hback).1⟩

theorem bytesFrom_noteSection : (debugImage 0).bytesFrom 0 = .ok noteBytes :=
  eq_ok_of_toOption (by decide +kernel)

/-- Debug information at the address of the notes is not read there: the notes are. -/
theorem not_showsHeader_debugImage :
    Image.ofBytes (debugImage 0).data = .ok (debugImage 0) ∧
      locate (debugImage 0) none = .ok ⟨0, .go1_20, .scan⟩ ∧
      ¬ ShowsHeader (debugImage 0) ⟨0, .go1_20, .scan⟩ ∧
      read (debugImage 0) 0 .go1_20 = .error (.functionTable (.pointerSize 78)) := by
  refine ⟨ofBytes_debugImage.1, eq_ok_of_toOption (by decide +kernel), ?_, ?_⟩
  · rintro ⟨data, hdata, hstart⟩
    obtain rfl : noteBytes = data := Except.ok.inj (bytesFrom_noteSection.symm.trans hdata)
    obtain ⟨size, hsize, hwidth⟩ := hstart.pointerSize
    have hsize' : noteBytes[7]? = some 78 := by decide +kernel
    obtain rfl : 78 = size := Option.some.inj (hsize'.symm.trans hsize)
    exact absurd hwidth (by decide)
  · rw [read, bytesFrom_noteSection]
    rfl

end GoImage.FunctionTable
