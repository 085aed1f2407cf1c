import GoImage.Proofs.ModuleData.Search
import Mathlib.Data.List.Sort

/-! # The scan for the module record as a search of slots

A scan compares the first word of a slot before it reads the record there. Where sections have no
address in common, that word is the first one of the record, so no valid record is passed over: the
first slot with a valid record decides. -/

namespace GoImage.ModuleData

open FunctionTable (Header)

variable {image : Image} {header : Header} {m : ModuleData} {s : Section} {content : ByteArray}
  {va : Nat}

/-! ## Slots -/

/-- The aligned addresses whose words lie in the content of a section, lowest first. -/
def sectionSlots (image : Image) (s : Section) : List Nat :=
  let width := image.pointerSize.bytes
  match image.content s with
  | .error _ => []
  | .ok content =>
    ((List.range content.size).map (s.address + ·)).filter fun va =>
      va % width = 0 && va + width ≤ s.address + content.size

/-- All slots in the order of a scan: those of the first section of each preferred name, and then
those of every other writable section with content. -/
def slots (image : Image) : List Nat :=
  (image.sectionsByPreference preferredSections).flatMap (sectionSlots image)

theorem pairwise_range_map (n k : Nat) : ((List.range n).map (k + ·)).Pairwise (· < ·) := by
  rw [List.pairwise_map]
  exact List.pairwise_lt_range.imp fun h => Nat.add_lt_add_left h k

/-- The slots of a section are the addresses of the positions that its scan looks at. -/
theorem sectionSlots_of_content (h : image.content s = .ok content) :
    sectionSlots image s =
      (alignedOffsets image.pointerSize.bytes image.pointerSize.bytes s.address content.size).map
        (s.address + ·) := by
  have hwidth := image.pointerSize.bytes_pos
  simp only [sectionSlots, h]
  apply List.Pairwise.eq_of_mem_iff (r := (· < ·))
  · exact (pairwise_range_map content.size s.address).filter _
  · rw [List.pairwise_map]
    exact (pairwise_alignedOffsets _ _ _ _).imp fun h => Nat.add_lt_add_left h s.address
  · intro va
    simp only [List.mem_filter, List.mem_map, List.mem_range, mem_alignedOffsets,
      Bool.and_eq_true, decide_eq_true_eq]
    constructor
    · rintro ⟨⟨pos, -, rfl⟩, haligned, hroom⟩
      exact ⟨pos, ⟨haligned, by omega⟩, rfl⟩
    · rintro ⟨pos, ⟨haligned, hroom⟩, rfl⟩
      exact ⟨⟨pos, by omega, rfl⟩, haligned, by omega⟩

/-! ## Valid records -/

/-- What a valid record says fits the function table it belongs to, and the file. -/
structure Consistent (image : Image) (header : Header) (m : ModuleData) : Prop where
  functionTable : m.functionTable = header.va
  ftab_length : m.ftab.length = header.functionCount + 1
  ftab_capacity : m.ftab.length ≤ m.ftab.capacity
  ftab_data : m.ftab.data = header.entriesVa
  text : m.text ≤ m.etext
  pc : m.minpc ≤ m.maxpc
  types : m.types < m.etypes
  typelinks : m.typelinks.length ≤ m.typelinks.capacity ∧
    m.typelinks.length * 4 ≤ image.data.size
  itablinks : m.itablinks.length ≤ m.itablinks.capacity ∧
    m.itablinks.length * image.pointerSize.bytes ≤ image.data.size
  filetab : m.filetab.length ≤ m.filetab.capacity ∧
    m.filetab.length * m.layout.fileEntrySize ≤ image.data.size
  links : linksWithinTypes image m = true

theorem isValid_iff_forall_checks :
    isValid image header m = true ↔ ∀ c ∈ checks image header m, c.2 = true := by
  simp [isValid, failedCheck?]

theorem isValid_iff_consistent : isValid image header m = true ↔ Consistent image header m := by
  simp only [isValid_iff_forall_checks, checks, List.forall_mem_cons, List.not_mem_nil, sliceFits,
    beq_iff_eq, Bool.and_eq_true, decide_eq_true_eq]
  constructor
  · rintro ⟨htable, ⟨-, hcapacity⟩, hlength, hdata, htext, hpc, htypes, htypelinks, hitablinks,
      hfiletab, hlinks, -⟩
    exact ⟨htable, hlength, hcapacity, hdata, htext, hpc, htypes, htypelinks, hitablinks, hfiletab,
      hlinks⟩
  · intro h
    have hne : m.ftab.length ≠ 0 := by
      rw [h.ftab_length]
      exact Nat.succ_ne_zero _
    exact ⟨h.functionTable, ⟨hne, h.ftab_capacity⟩, h.ftab_length, h.ftab_data, h.text, h.pc,
      h.types, h.typelinks, h.itablinks, h.filetab, h.links, nofun⟩

theorem validAt?_eq_none_iff :
    validAt? image header va = none ↔
      ∀ m, read image va header.layout = .ok m → isValid image header m = false := by
  simp only [Option.eq_none_iff_forall_ne_some, ne_eq, validAt?_eq_some_iff, not_and,
    Bool.not_eq_true]

/-! ## The first slot decides -/

section Loaded

variable {data : ByteArray}

/-- At a position of a section's content whose word is not the address of the function table, no
valid record starts. -/
theorem validAt?_of_other_word {pos word : Nat} (hload : Image.ofBytes data = .ok image)
    (hdisjoint : image.Disjoint) (hs : s ∈ image.fileBackedSections)
    (hcontent : image.content s = .ok content) (hpos : pos < content.size)
    (hword : image.order.readWord image.pointerSize.bytes content pos = .ok word)
    (hne : word ≠ header.va) : validAt? image header (s.address + pos) = none := by
  have hsize := Image.size_content_le hcontent
  have hholds : s.holds (s.address + pos) = true := by
    rw [Section.holds_iff]
    omega
  have hfirst := hdisjoint.sectionHolding?_eq hload hs hholds
  cases hvalid : validAt? image header (s.address + pos) with
  | none => rfl
  | some m =>
      obtain ⟨-, t, content', ht, hcontent', -, hword'⟩ := exists_of_validAt? hvalid
      obtain rfl : s = t := Option.some.inj (hfirst.symm.trans ht)
      obtain rfl : content = content' := Except.ok.inj (hcontent.symm.trans hcontent')
      rw [Nat.add_sub_cancel_left, hword] at hword'
      exact absurd (Except.ok.inj hword') hne

/-- The scan of a section finds what the first of its slots with a valid record holds. -/
theorem scanSection?_eq_findSome? (hload : Image.ofBytes data = .ok image)
    (hdisjoint : image.Disjoint) (hs : s ∈ image.sections) :
    scanSection? image header s =
      ((sectionSlots image s).findSome? (validAt? image header)).map .ok := by
  cases hcontent : image.content s with
  | error e => simp [scanSection?, Image.scanSection?, sectionSlots, hcontent]
  | ok content =>
      simp only [scanSection?, Image.scanSection?_of_content hcontent,
        sectionSlots_of_content hcontent, List.findSome?_map, List.map_findSome?]
      apply findSome?_congr
      intro pos hmem
      obtain ⟨-, hroom⟩ := mem_alignedOffsets.1 hmem
      have hwidth := image.pointerSize.bytes_pos
      have hbacked := Image.isFileBacked_of_content hcontent (by omega)
      have hmem := Image.mem_fileBackedSections.2 ⟨hs, hbacked⟩
      have hbound := hdisjoint.bounded s hmem
      have hsize := Image.size_content_le hcontent
      cases hword : image.order.readWord image.pointerSize.bytes content pos with
      | error e => simp [ByteOrder.readWord, hroom] at hword
      | ok word =>
          simp only [Function.comp_apply]
          by_cases heq : word = header.va
          · rw [if_pos heq, answerAt?_of_lt (by omega)]
          · rw [if_neg heq,
              validAt?_of_other_word hload hdisjoint hmem hcontent (by omega) hword heq]
            rfl

/-- A scan finds what the first of all slots with a valid record holds. -/
theorem scan_eq_findSome? (hload : Image.ofBytes data = .ok image) (hdisjoint : image.Disjoint) :
    (image.sectionsByPreference preferredSections).findSome? (scanSection? image header) =
      ((slots image).findSome? (validAt? image header)).map .ok := by
  rw [slots, findSome?_flatMap, List.map_findSome?]
  apply findSome?_congr
  exact fun s hs => scanSection?_eq_findSome? hload hdisjoint
    (Image.mem_of_mem_sectionsByPreference hs)

theorem scan_eq_ok_iff (hload : Image.ofBytes data = .ok image) (hdisjoint : image.Disjoint) :
    scan image header = .ok m ↔ (slots image).findSome? (validAt? image header) = some m := by
  unfold scan
  rw [scan_eq_findSome? hload hdisjoint]
  cases (slots image).findSome? (validAt? image header) <;> simp

theorem scan_eq_error_iff (hload : Image.ofBytes data = .ok image) (hdisjoint : image.Disjoint) :
    scan image header = .error .moduleDataNotFound ↔
      (slots image).findSome? (validAt? image header) = none := by
  unfold scan
  rw [scan_eq_findSome? hload hdisjoint]
  cases (slots image).findSome? (validAt? image header) <;> simp

/-- In a loaded image whose sections are disjoint, a scan answers with the record of the first slot
that has a valid one, and fails exactly if there is no such slot. What it answers with fits the
function table and the file. -/
theorem scan_eq_first_valid_slot (hload : Image.ofBytes data = .ok image)
    (hdisjoint : image.Disjoint) (header : Header) :
    (∀ m, scan image header = .ok m ↔
      ∃ before va after, slots image = before ++ va :: after ∧
        read image va header.layout = .ok m ∧ isValid image header m = true ∧
        ∀ va' ∈ before, ∀ m', read image va' header.layout = .ok m' →
          isValid image header m' = false) ∧
    (scan image header = .error .moduleDataNotFound ↔
      ∀ va ∈ slots image, ∀ m, read image va header.layout = .ok m →
        isValid image header m = false) ∧
    ∀ m, scan image header = .ok m → Consistent image header m := by
  have hfirst : ∀ m, scan image header = .ok m ↔
      ∃ before va after, slots image = before ++ va :: after ∧
        read image va header.layout = .ok m ∧ isValid image header m = true ∧
        ∀ va' ∈ before, ∀ m', read image va' header.layout = .ok m' →
          isValid image header m' = false := by
    intro m
    simp only [scan_eq_ok_iff hload hdisjoint, List.findSome?_eq_some_iff,
      validAt?_eq_some_iff, validAt?_eq_none_iff, and_assoc]
  refine ⟨hfirst, ?_, fun m hm => ?_⟩
  · simp only [scan_eq_error_iff hload hdisjoint, List.findSome?_eq_none_iff,
      validAt?_eq_none_iff]
  · obtain ⟨-, va, -, -, -, hvalid, -⟩ := (hfirst m).1 hm
    exact isValid_iff_consistent.1 hvalid

end Loaded

/-! ## A pointer back in front of the record -/

/-- The headers of a file of two writable segments, and the address of a function table. -/
def pointerBytes : ByteArray :=
  ⟨#[0x7f, 0x45, 0x4c, 0x46, 1, 1, 1, 0, 0, 0, 0, 0, 0, 0, 0, 0, 2, 0, 3, 0,
     1, 0, 0, 0, 0, 0, 0, 0, 0x34, 0, 0, 0, 0, 0, 0, 0, 0, 0, 0, 0,
     0x34, 0, 0x20, 0, 2, 0, 0x28, 0, 0, 0, 0, 0, 1, 0, 0, 0, 0x74, 0, 0, 0,
     0, 0x10, 0, 0, 0, 0, 0, 0, 4, 0, 0, 0, 4, 0, 0, 0, 2, 0, 0, 0,
     4, 0, 0, 0, 1, 0, 0, 0, 0x78, 0, 0, 0, 0, 0x20, 0, 0, 0, 0, 0, 0,
     0x90, 0, 0, 0, 0x90, 0, 0, 0, 2, 0, 0, 0, 4, 0, 0, 0, 0, 0x30, 0, 0]⟩

/-- A segment that holds nothing but that address. -/
def pointerSegment : Section :=
  { name := "LOAD0", address := 0x1000, size := 4, offset := 116, fileSize := 4
    executable := false, writable := true, initialized := true }

def recordSegment : Section :=
  { name := "LOAD1", address := 0x2000, size := 144, offset := 120, fileSize := 144
    executable := false, writable := true, initialized := true }

def twoSegmentsImage : Image :=
  { format := .elf
    sections := [pointerSegment, recordSegment]
    symbols := []
    entry := 0
    pointerSize := .four
    order := .little
    arch := "386"
    os := "linux"
    data := pointerBytes ++ recordBytes }

theorem ofBytes_twoSegmentsImage :
    Image.ofBytes (pointerBytes ++ recordBytes) = .ok twoSegmentsImage := by
  have hsize : (pointerBytes ++ recordBytes).size ≠ 0 := by
    rw [ByteArray.size_append, size_recordBytes]
    omega
  exact Image.ofBytes_eq_ok rfl hsize (eq_ok_of_toOption (by decide +kernel))

theorem disjoint_twoSegmentsImage : twoSegmentsImage.Disjoint := by
  have hsections : twoSegmentsImage.fileBackedSections = [pointerSegment, recordSegment] := rfl
  constructor
  · rw [hsections, List.pairwise_pair]
    simp only [Section.holds_iff, pointerSegment, recordSegment]
    omega
  · rw [hsections]
    simp [pointerSegment, recordSegment, wordModulus]

theorem size_pointerBytes : pointerBytes.size = 120 := by decide +kernel

theorem content_recordSegment : twoSegmentsImage.content recordSegment = .ok recordBytes := by
  have hsize : 120 + 144 = pointerBytes.size + recordBytes.size := by
    rw [size_pointerBytes, size_recordBytes]
  have hfits : recordSegment.offset + recordSegment.fileSize ≤ twoSegmentsImage.data.size :=
    Nat.le_of_eq (hsize.trans ByteArray.size_append.symm)
  rw [Image.content_eq rfl hfits]
  exact congrArg Except.ok (ByteArray.extract_append_eq_right size_pointerBytes.symm hsize)

theorem read_twoSegmentsImage :
    read twoSegmentsImage 0x2000 .go1_2 = .ok twoSectionsRecord := by
  have hfirst : twoSegmentsImage.sectionHolding? recordSegment.address = some recordSegment := by
    simp [Image.sectionHolding?, twoSegmentsImage, Section.holds, pointerSegment, recordSegment]
  have hbytes := Image.bytesFrom_address hfirst content_recordSegment
  exact read_of_record hbytes size_recordBytes record_on_recordBytes

/-- What is found is the record, although the slot in front of it holds the address of the table
too: no record fits there. -/
theorem scan_twoSegmentsImage :
    Image.ofBytes (pointerBytes ++ recordBytes) = .ok twoSegmentsImage ∧
      twoSegmentsImage.Disjoint ∧
      slots twoSegmentsImage = [0x1000] ++ 0x2000 :: (List.range 35).map (0x2004 + 4 * ·) ∧
      scan twoSegmentsImage twoSectionsHeader = .ok twoSectionsRecord := by
  have hslots : slots twoSegmentsImage =
      [0x1000] ++ 0x2000 :: (List.range 35).map (0x2004 + 4 * ·) := by decide +kernel
  have hother : validAt? twoSegmentsImage twoSectionsHeader 0x1000 = none := by decide +kernel
  have hvalid : Consistent twoSegmentsImage twoSectionsHeader twoSectionsRecord :=
    { functionTable := rfl
      ftab_length := rfl
      ftab_capacity := by decide
      ftab_data := rfl
      text := by decide
      pc := by decide
      types := by decide
      typelinks := ⟨by decide, Nat.zero_le _⟩
      itablinks := ⟨by decide, Nat.zero_le _⟩
      filetab := ⟨by decide, Nat.zero_le _⟩
      links := linksWithinTypes_of_empty _ rfl }
  obtain ⟨hfirst, -, -⟩ :=
    scan_eq_first_valid_slot ofBytes_twoSegmentsImage disjoint_twoSegmentsImage twoSectionsHeader
  refine ⟨ofBytes_twoSegmentsImage, disjoint_twoSegmentsImage, hslots, (hfirst _).2 ?_⟩
  refine ⟨_, _, _, hslots, read_twoSegmentsImage, isValid_iff_consistent.2 hvalid,
    fun va hva => ?_⟩
  obtain rfl := List.mem_singleton.1 hva
  exact validAt?_eq_none_iff.1 hother

end GoImage.ModuleData
