import GoImage.ModuleData.Search
import GoImage.Proofs.Bytes.Word
import GoImage.Proofs.Image.Named
import GoImage.Proofs.Image.Scan
import GoImage.Proofs.Image.Translation
import GoImage.Proofs.Run

/-! # Finding the module record with and without its symbol

The record that the symbol names is also found by a scan, if no other address holds a valid record
and the section that holds this one is looked through. It is, unless an earlier section has its name
and the name is a preferred one. -/

namespace GoImage.ModuleData

open FunctionTable (Header)

variable {image : Image} {header : Header} {layout : Layout} {m : ModuleData} {s : Section}
  {va : Nat}

/-! ## Reading a record -/

/-- How many bytes a record takes. -/
def recordSize (image : Image) (layout : Layout) : Nat :=
  layout.moduleWords.count * image.pointerSize.bytes

theorem width_le_recordSize (image : Image) (layout : Layout) :
    image.pointerSize.bytes ≤ recordSize image layout := by
  cases layout <;> simp only [recordSize, Layout.moduleWords, ModuleWords.count] <;> omega

theorem read_of_bytesAt {data : ByteArray}
    (h : image.bytesAt va (recordSize image layout) = .ok data) :
    read image va layout = (record va layout).on (image.cursor data) := by
  change image.bytesAt va (recordSize image layout) >>= _ = _
  rw [h]
  rfl

/-- A record that fills the rest of its section is read from it. -/
theorem read_of_record {data : ByteArray} (hdata : image.bytesFrom va = .ok data)
    (hsize : data.size = recordSize image layout)
    (hrecord : (record va layout).on (image.cursor data) = .ok m) :
    read image va layout = .ok m := by
  have hbytes := Image.bytesAt_size hdata
  rw [hsize] at hbytes
  rw [read_of_bytesAt hbytes, hrecord]

theorem wordAt_zero_on_cursor (data : ByteArray) :
    (wordAt 0).on (image.cursor data) = image.order.readWord image.pointerSize.bytes data 0 := by
  have hsize := PointerSize.ofBytes?_bytes image.pointerSize
  cases hword : image.order.readWord image.pointerSize.bytes data 0 with
  | ok word =>
      simp [wordAt, Decoder.on, Decoder.skipPointers, Decoder.run_seek, Decoder.run_skip,
        Decoder.run_pointer, Decoder.run_wordIn, Image.cursor, hsize, hword]
  | error e =>
      simp [wordAt, Decoder.on, Decoder.skipPointers, Decoder.run_seek, Decoder.run_skip,
        Decoder.run_pointer, Decoder.run_wordIn, Image.cursor, hsize, hword]

/-- A record states its own address, and its first word is the address of the function table. -/
theorem functionTable_of_record {c : Cursor} (h : (record va layout).on c = .ok m) :
    m.va = va ∧ (wordAt 0).on c = .ok m.functionTable := by
  unfold record at h
  obtain ⟨word, c', hword, h⟩ := Decoder.exists_of_on_bind h
  have hrest : m.va = va ∧ m.functionTable = word := by
    refine Yields.on (P := fun m : ModuleData => m.va = va ∧ m.functionTable = word) ?_ h
    exact .bind fun _ => .bind fun _ => .bind fun _ => .bind fun _ => .bind fun _ =>
      .bind fun _ => .bind fun _ => .bind fun _ => .bind fun _ => .bind fun _ => .pure ⟨rfl, rfl⟩
  refine ⟨hrest.1, ?_⟩
  unfold Decoder.on
  rw [hword, hrest.2]

/-- A record is read from the content of the first section at its address, which has all of it. -/
theorem exists_of_read (h : read image va layout = .ok m) :
    m.va = va ∧ ∃ s content, image.sectionHolding? va = some s ∧ image.content s = .ok content ∧
      va - s.address + recordSize image layout ≤ content.size ∧
      image.order.readWord image.pointerSize.bytes content (va - s.address) =
        .ok m.functionTable := by
  obtain ⟨data, hdata, h⟩ := exists_of_bind_eq_ok h
  obtain ⟨hva, hword⟩ := functionTable_of_record h
  rw [wordAt_zero_on_cursor] at hword
  obtain ⟨rest, hrest, hsize, rfl⟩ := Image.bytesAt_eq_ok_iff.1 hdata
  obtain ⟨s, content, hs, hcontent, hle, rfl⟩ := Image.exists_of_bytesFrom hrest
  have hwidth := width_le_recordSize image layout
  rw [ByteArray.size_extract, Nat.min_self] at hsize
  change recordSize image layout ≤ _ at hsize
  refine ⟨hva, s, content, hs, hcontent, by omega, ?_⟩
  rw [ByteArray.extract_extract, Nat.add_zero] at hword
  rw [← hword, ByteOrder.readWord_extract _ (by omega), Nat.add_zero]
  change _ ≤ min (_ + recordSize image layout) _
  omega

/-! ## Valid records -/

theorem validAt?_eq_some_iff :
    validAt? image header va = some m ↔
      read image va header.layout = .ok m ∧ isValid image header m = true := by
  unfold validAt?
  cases read image va header.layout with
  | error e => simp
  | ok m' =>
      by_cases hvalid : isValid image header m' = true
      · simp only [hvalid, ↓reduceIte, Option.some.injEq, Except.ok.injEq]
        exact ⟨fun h => ⟨h, h ▸ hvalid⟩, And.left⟩
      · simp only [hvalid, Except.ok.injEq]
        exact ⟨nofun, fun h => absurd (h.1 ▸ h.2) hvalid⟩

theorem ofSymbol_eq_ok_iff :
    ofSymbol image header = .ok m ↔
      ∃ va, image.symbol? symbolName = some va ∧ validAt? image header va = some m := by
  simp only [validAt?_eq_some_iff, ofSymbol]
  cases image.symbol? symbolName with
  | none => exact ⟨nofun, nofun⟩
  | some va =>
      constructor
      · intro h
        obtain ⟨m', hread, h⟩ := exists_of_bind_eq_ok h
        split at h
        · rename_i hvalid
          cases h
          exact ⟨va, rfl, hread, hvalid⟩
        · cases h
      · rintro ⟨_, ⟨⟩, hread, hvalid⟩
        simp only [hread]
        exact if_pos hvalid

theorem linksWithinTypes_of_empty (image : Image) (h : m.typelinks.length = 0) :
    linksWithinTypes image m = true := by
  unfold linksWithinTypes
  rw [h]
  dsimp only
  cases image.bytesAt m.typelinks.data _ <;> rfl

theorem functionTable_of_isValid (h : isValid image header m = true) :
    m.functionTable = header.va := by
  have hnone : (checks image header m).find? (!·.2) = none := by
    simpa [isValid, failedCheck?] using h
  have hfirst := List.find?_eq_none.1 hnone (.functionTable, m.functionTable == header.va)
    (List.mem_cons_self ..)
  simpa using hfirst

/-- A valid record starts, in the first section at its address, with the address of the table. -/
theorem exists_of_validAt? (h : validAt? image header va = some m) :
    m.va = va ∧ ∃ s content, image.sectionHolding? va = some s ∧ image.content s = .ok content ∧
      va - s.address + recordSize image header.layout ≤ content.size ∧
      image.order.readWord image.pointerSize.bytes content (va - s.address) = .ok header.va := by
  obtain ⟨hread, hvalid⟩ := validAt?_eq_some_iff.1 h
  rw [← functionTable_of_isValid hvalid]
  exact exists_of_read hread

/-- No other address has a valid record. -/
def IsOnlyRecord (image : Image) (header : Header) (m : ModuleData) : Prop :=
  ∀ va < wordModulus, ∀ m', validAt? image header va = some m' → va = m.va

theorem IsOnlyRecord.eq {m' : ModuleData} (h : IsOnlyRecord image header m)
    (hm : validAt? image header m.va = some m) (hva : va < wordModulus)
    (hm' : validAt? image header va = some m') : m' = m := by
  rw [h va hva m' hm', hm] at hm'
  exact (Option.some.inj hm').symm

/-! ## The scan of a section -/

theorem answerAt?_of_lt (h : va < wordModulus) :
    answerAt? image header va = (validAt? image header va).map .ok := by
  unfold answerAt?
  rw [checkAddress_eq_ok_iff.2 h]

/-- What a scan of a section answers comes from a position of its content. -/
theorem exists_of_scanSection? {answer : Except Error ModuleData}
    (h : scanSection? image header s = some answer) :
    ∃ content pos, image.content s = .ok content ∧
      pos + image.pointerSize.bytes ≤ content.size ∧
      answerAt? image header (s.address + pos) = some answer := by
  unfold scanSection? at h
  obtain ⟨content, pos, hcontent, -, hpos, hfound⟩ := Image.exists_of_scanSection? h
  refine ⟨content, pos, hcontent, hpos, ?_⟩
  split at hfound
  · split at hfound
    · exact hfound
    · cases hfound
  · cases hfound

/-- With disjoint sections, what a scan of a section answers is a valid record at an address of the
section. -/
theorem exists_valid_of_scanSection? {answer : Except Error ModuleData}
    (hdisjoint : image.Disjoint) (hs : s ∈ image.sections)
    (h : scanSection? image header s = some answer) :
    s ∈ image.fileBackedSections ∧ ∃ va m, va < wordModulus ∧ s.holds va = true ∧
      validAt? image header va = some m ∧ answer = .ok m := by
  obtain ⟨content, pos, hcontent, hpos, hanswer⟩ := exists_of_scanSection? h
  have hwidth := image.pointerSize.bytes_pos
  have hbacked := Image.isFileBacked_of_content hcontent (by omega)
  have hmem := Image.mem_fileBackedSections.2 ⟨hs, hbacked⟩
  have hsize := Image.size_content_le hcontent
  have hbound := hdisjoint.bounded s hmem
  have hva : s.address + pos < wordModulus := by omega
  rw [answerAt?_of_lt hva] at hanswer
  obtain ⟨m, hvalid, rfl⟩ := Option.map_eq_some_iff.1 hanswer
  refine ⟨hmem, _, m, hva, ?_, hvalid, rfl⟩
  rw [Section.holds_iff]
  omega

/-- A scan of the section that holds the only valid record finds it, at an aligned address. -/
theorem scanSection?_of_only (hdisjoint : image.Disjoint)
    (hvalid : validAt? image header m.va = some m) (honly : IsOnlyRecord image header m)
    (haligned : m.va % image.pointerSize.bytes = 0)
    (hfirst : image.sectionHolding? m.va = some s) :
    scanSection? image header s = some (.ok m) := by
  obtain ⟨-, t, content, ht, hcontent, hsize, hword⟩ := exists_of_validAt? hvalid
  obtain rfl : s = t := Option.some.inj (hfirst.symm.trans ht)
  obtain ⟨hmem, hholds⟩ := Image.holds_of_sectionHolding? hfirst
  rw [Section.holds_iff] at hholds
  have hpos : s.address + (m.va - s.address) = m.va := by omega
  have hwidth := width_le_recordSize image header.layout
  have hbytes := image.pointerSize.bytes_pos
  have hle := Image.size_content_le hcontent
  have hbound := hdisjoint.bounded s (Image.mem_fileBackedSections.2
    ⟨hmem, Image.isFileBacked_of_content hcontent (by omega)⟩)
  unfold scanSection?
  dsimp only
  rw [Image.scanSection?_of_content hcontent]
  refine findSome?_eq_some_of_unique (a := m.va - s.address)
    (mem_alignedOffsets.2 ⟨by rw [hpos, haligned], by omega⟩) ?_ ?_
  · rw [hword, hpos, answerAt?_of_lt (by omega)]
    simp [hvalid]
  · intro pos hmem answer hanswer
    obtain ⟨-, hroom⟩ := mem_alignedOffsets.1 hmem
    have hva : s.address + pos < wordModulus := by omega
    split at hanswer
    · split at hanswer
      · rw [answerAt?_of_lt hva] at hanswer
        obtain ⟨m', hm', rfl⟩ := Option.map_eq_some_iff.1 hanswer
        rw [honly.eq hvalid hva hm']
      · cases hanswer
    · cases hanswer

/-! ## Both ways of finding -/

/-- Whether a scan looks through a writable section with content: not if it has one of the preferred
names, and is not the first section of that name. -/
def IsScanned (image : Image) (s : Section) : Prop :=
  s.name ∈ preferredSections → image.sectionNamed? s.name = some s

theorem scan_eq_ok_of_scanned (hdisjoint : image.Disjoint)
    (hvalid : validAt? image header m.va = some m) (honly : IsOnlyRecord image header m)
    (hs : s ∈ image.sectionsByPreference preferredSections)
    (hfound : scanSection? image header s = some (.ok m)) : scan image header = .ok m := by
  have hsome : (image.sectionsByPreference preferredSections).findSome?
      (scanSection? image header) = some (.ok m) := by
    refine findSome?_eq_some_of_unique hs hfound fun t ht answer hanswer => ?_
    obtain ⟨-, va, m', hva, -, hm', rfl⟩ := exists_valid_of_scanSection? hdisjoint
      (Image.mem_of_mem_sectionsByPreference ht) hanswer
    rw [honly.eq hvalid hva hm']
  unfold scan
  rw [hsome]

/-- With disjoint sections, the only valid record is not found in another section than its own. -/
theorem mem_of_scanSection? {t : Section} {answer : Except Error ModuleData}
    (hdisjoint : image.Disjoint) (honly : IsOnlyRecord image header m)
    (hs : s ∈ image.fileBackedSections) (hholds : s.holds m.va = true)
    (ht : t ∈ image.sectionsByPreference preferredSections)
    (hfound : scanSection? image header t = some answer) :
    s ∈ image.sectionsByPreference preferredSections := by
  obtain ⟨hmem, va, m', hva, hholds', hm', -⟩ := exists_valid_of_scanSection? hdisjoint
    (Image.mem_of_mem_sectionsByPreference ht) hfound
  rw [honly va hva m' hm'] at hholds'
  rw [hdisjoint.eq_of_holds hs hmem hholds hholds']
  exact ht

/-- The symbol names a record that is the only valid one and stands, aligned, in a writable section.
The sections are disjoint. -/
structure IsNamed (image : Image) (header : Header) (m : ModuleData) (s : Section) : Prop where
  disjoint : image.Disjoint
  named : ofSymbol image header = .ok m
  only : IsOnlyRecord image header m
  aligned : m.va % image.pointerSize.bytes = 0
  fileBacked : s ∈ image.fileBackedSections
  writable : s.writable = true
  holds : s.holds m.va = true

namespace IsNamed

/-- The record is read in the section that holds it. -/
theorem sectionHolding?_eq (h : IsNamed image header m s) :
    validAt? image header m.va = some m ∧ image.sectionHolding? m.va = some s := by
  obtain ⟨va, -, hvalid⟩ := ofSymbol_eq_ok_iff.1 h.named
  obtain ⟨rfl, t, content, hfirst, hcontent, hsize, -⟩ := exists_of_validAt? hvalid
  have hwidth := width_le_recordSize image header.layout
  have hpos := image.pointerSize.bytes_pos
  obtain ⟨hmem, hholds⟩ := Image.holds_of_sectionHolding? hfirst
  have ht : t ∈ image.fileBackedSections := Image.mem_fileBackedSections.2
    ⟨hmem, Image.isFileBacked_of_content hcontent (by omega)⟩
  rw [h.disjoint.eq_of_holds h.fileBacked ht h.holds hholds]
  exact ⟨hvalid, hfirst⟩

theorem locate_eq (h : IsNamed image header m s) : locate image header = .ok (m, .symbol) := by
  simp [locate, h.named]

theorem mem_sectionsByPreference_iff (h : IsNamed image header m s) :
    s ∈ image.sectionsByPreference preferredSections ↔ IsScanned image s :=
  Image.mem_sectionsByPreference h.fileBacked h.writable

theorem scan_eq_ok (h : IsNamed image header m s) (hscanned : IsScanned image s) :
    scan image header = .ok m := by
  obtain ⟨hvalid, hfirst⟩ := h.sectionHolding?_eq
  have hfound := scanSection?_of_only h.disjoint hvalid h.only h.aligned hfirst
  exact scan_eq_ok_of_scanned h.disjoint hvalid h.only
    (h.mem_sectionsByPreference_iff.2 hscanned) hfound

theorem scan_eq_error (h : IsNamed image header m s) (hscanned : ¬ IsScanned image s) :
    scan image header = .error .moduleDataNotFound := by
  have hnone : (image.sectionsByPreference preferredSections).findSome?
      (scanSection? image header) = none := by
    rw [List.findSome?_eq_none_iff]
    intro t ht
    cases hfound : scanSection? image header t with
    | none => rfl
    | some m' =>
        have hs := mem_of_scanSection? h.disjoint h.only h.fileBacked h.holds ht hfound
        exact absurd (h.mem_sectionsByPreference_iff.1 hs) hscanned
  simp [scan, hnone]

end IsNamed

theorem locate_of_symbol (hsymbol : image.symbol? symbolName = some va)
    (hread : read image va header.layout = .ok m) (hvalid : isValid image header m = true) :
    locate image header = .ok (m, .symbol) := by
  have hfound := ofSymbol_eq_ok_iff.2 ⟨va, hsymbol, validAt?_eq_some_iff.2 ⟨hread, hvalid⟩⟩
  simp [locate, hfound]

theorem locate_of_symbols (image : Image) (header : Header) {symbols : Symbols}
    (h : symbols.lookup symbolName = none) :
    locate { image with symbols } header = (scan image header).map (·, .scan) := by
  have hsymbol : ofSymbol { image with symbols } header = .error .moduleDataNotFound := by
    simp [ofSymbol, Image.symbol?, h]
    rfl
  have hscan : scan { image with symbols } header = scan image header := rfl
  unfold locate
  rw [hsymbol, hscan]
  cases scan image header <;> rfl

/-- The record that the symbol names is found without the symbol exactly if a scan looks through its
section: any but a later one with a preferred name. -/
theorem locate_without_symbol (h : IsNamed image header m s) :
    locate image header = .ok (m, .symbol) ∧
      (IsScanned image s → scan image header = .ok m ∧
        ∀ symbols : Symbols, symbols.lookup symbolName = none →
          locate { image with symbols } header = .ok (m, .scan)) ∧
      (¬ IsScanned image s → scan image header = .error .moduleDataNotFound ∧
        ∀ symbols : Symbols, symbols.lookup symbolName = none →
          locate { image with symbols } header = .error .moduleDataNotFound) := by
  refine ⟨h.locate_eq, fun hscanned => ?_, fun hscanned => ?_⟩
  · have hscan := h.scan_eq_ok hscanned
    refine ⟨hscan, fun symbols hsymbols => ?_⟩
    rw [locate_of_symbols image header hsymbols, hscan]
    rfl
  · have hscan := h.scan_eq_error hscanned
    refine ⟨hscan, fun symbols hsymbols => ?_⟩
    rw [locate_of_symbols image header hsymbols, hscan]
    rfl

/-! ## Two sections for data -/

/-- A record of a table at 0x3000 with two functions, and one byte of types. -/
def recordBytes : ByteArray :=
  ⟨#[0x00, 0x30, 0, 0, 0, 0, 0, 0, 0, 0, 0, 0, 0x0c, 0x30, 0, 0, 3, 0, 0, 0, 3, 0, 0, 0,
     0, 0, 0, 0, 0, 0, 0, 0, 0, 0, 0, 0, 0, 0, 0, 0, 0, 0, 0, 0, 0, 0, 0, 0,
     0, 0, 0, 0, 0, 0, 0, 0, 0, 0, 0, 0, 0, 0, 0, 0, 0, 0, 0, 0, 0, 0, 0, 0,
     0, 0, 0, 0, 0, 0, 0, 0, 0, 0, 0, 0, 0, 0, 0, 0, 0, 0, 0, 0, 0, 0, 0, 0,
     0, 0, 0, 0, 0, 0, 0, 0, 1, 0, 0, 0, 0, 0, 0, 0, 0, 0, 0, 0, 0, 0, 0, 0,
     0, 0, 0, 0, 0, 0, 0, 0, 0, 0, 0, 0, 0, 0, 0, 0, 0, 0, 0, 0, 0, 0, 0, 0]⟩

def counterSection : Section :=
  { name := ".data", address := 0x1000, size := 4, offset := Elf.fileHeaderSize .four + 144
    fileSize := 4, executable := false, writable := true, initialized := true }

/-- The section that holds the record, with a name. -/
def recordSection (name : String) : Section :=
  { name, address := 0x2000, size := 144, offset := Elf.fileHeaderSize .four, fileSize := 144
    executable := false, writable := true, initialized := true }

/-- A counter in `.data`, and a record in a section of some name behind it. -/
def twoSectionsFile (name : String) : Elf.File :=
  { width := .four
    order := .little
    sections := [counterSection, recordSection name]
    symbols := [(symbolName, 0x2000)]
    content := recordBytes.data.toList ++ [1, 2, 3, 4] }

def twoSectionsImage (name : String) : Image :=
  (twoSectionsFile name).image

/-- The section of the one symbol. -/
def symbolSection (name : String) : Section :=
  { name := Elf.symbolTableName, address := 0, size := 16
    offset := (twoSectionsFile name).symbolsAt, fileSize := 16
    executable := false, writable := false, initialized := true }

theorem sections_twoSectionsImage (name : String) : (twoSectionsImage name).sections =
    [counterSection, recordSection name, symbolSection name] :=
  rfl

theorem ofBytes_twoSectionsImage {name : String} (hname : name = ".data" ∨ name = ".noptrdata") :
    Image.ofBytes (twoSectionsImage name).data = .ok (twoSectionsImage name) := by
  rcases hname with rfl | rfl <;> exact Elf.File.Fits.ofBytes_image (by decide +kernel)

def twoSectionsHeader : Header :=
  { layout := .go1_2
    va := 0x3000
    quantum := 1
    pointerSize := .four
    functionCount := 2
    entriesOffset := 12 }

def twoSectionsRecord : ModuleData :=
  { va := 0x2000
    layout := .go1_2
    functionTable := 0x3000
    ftab := ⟨0x300c, 3, 3⟩
    filetab := ⟨0, 0, 0⟩
    minpc := 0
    maxpc := 0
    text := 0
    etext := 0
    types := 0
    etypes := 1
    typelinks := ⟨0, 0, 0⟩
    itablinks := ⟨0, 0, 0⟩ }

theorem disjoint_twoSectionsImage (name : String) : (twoSectionsImage name).Disjoint := by
  have hsections : (twoSectionsImage name).fileBackedSections =
      [counterSection, recordSection name, symbolSection name] := rfl
  constructor
  · rw [hsections]
    simp only [List.pairwise_cons, List.forall_mem_cons, List.not_mem_nil, false_implies,
      implies_true, List.Pairwise.nil, and_true, Section.holds_iff, counterSection, recordSection,
      symbolSection]
    refine ⟨⟨fun va => ?_, fun va => ?_⟩, fun va => ?_⟩ <;> omega
  · rw [hsections]
    simp [counterSection, recordSection, symbolSection, wordModulus]

/-- A record takes 144 bytes, and only the start of its own section has so many behind it. -/
theorem isOnlyRecord_twoSectionsImage (name : String) :
    IsOnlyRecord (twoSectionsImage name) twoSectionsHeader twoSectionsRecord := by
  intro va hva m' hm'
  obtain ⟨-, s, content, hs, hcontent, hsize, -⟩ := exists_of_validAt? hm'
  have hle := Image.size_content_le hcontent
  obtain ⟨hmem, hholds⟩ := Image.holds_of_sectionHolding? hs
  rw [sections_twoSectionsImage] at hmem
  have hrecord : recordSize (twoSectionsImage name) twoSectionsHeader.layout = 144 := rfl
  rw [Section.holds_iff] at hholds
  rw [hrecord] at hsize
  simp only [List.mem_cons, List.not_mem_nil, or_false] at hmem
  rcases hmem with rfl | rfl | rfl
  · have hshort : counterSection.fileSize = 4 := rfl
    omega
  · have haddress : (recordSection name).address = 0x2000 := rfl
    have hlong : (recordSection name).fileSize = 144 := rfl
    have hva' : twoSectionsRecord.va = 0x2000 := rfl
    omega
  · have hshort : (symbolSection name).fileSize = 16 := rfl
    omega

theorem size_recordBytes : recordBytes.size = 144 := by decide +kernel

theorem record_on_recordBytes :
    (record 0x2000 .go1_2).on { data := recordBytes, pointerSize := 4 } = .ok twoSectionsRecord :=
  eq_ok_of_toOption (by decide +kernel)

theorem content_recordSection (name : String) :
    (twoSectionsImage name).content (recordSection name) = .ok recordBytes := by
  have hsize : 144 = recordBytes.data.toList.length := by simp [size_recordBytes]
  rw [← toByteArray_toList recordBytes]
  exact Image.content_of_standsAt rfl hsize (standsAt_append.1 Elf.File.standsAt_content).1

theorem sectionHolding?_recordSection (name : String) :
    (twoSectionsImage name).sectionHolding? (recordSection name).address =
      some (recordSection name) := by
  simp [Image.sectionHolding?, sections_twoSectionsImage, Section.holds, counterSection,
    recordSection]

theorem read_twoSectionsImage (name : String) :
    read (twoSectionsImage name) (recordSection name).address .go1_2 = .ok twoSectionsRecord := by
  have hbytes := Image.bytesFrom_address (sectionHolding?_recordSection name)
    (content_recordSection name)
  exact read_of_record hbytes size_recordBytes record_on_recordBytes

theorem ofSymbol_twoSectionsImage (name : String) :
    ofSymbol (twoSectionsImage name) twoSectionsHeader = .ok twoSectionsRecord := by
  have hvalid : isValid (twoSectionsImage name) twoSectionsHeader twoSectionsRecord = true := by
    unfold isValid failedCheck? checks
    rw [linksWithinTypes_of_empty _ rfl]
    rfl
  have hsymbol : (twoSectionsImage name).symbol? symbolName =
      some (recordSection name).address := by
    simp [Image.symbol?, twoSectionsImage, twoSectionsFile, Elf.File.image, recordSection]
  exact ofSymbol_eq_ok_iff.2
    ⟨_, hsymbol, validAt?_eq_some_iff.2 ⟨read_twoSectionsImage name, hvalid⟩⟩

theorem isNamed_twoSectionsImage (name : String) :
    IsNamed (twoSectionsImage name) twoSectionsHeader twoSectionsRecord (recordSection name) where
  disjoint := disjoint_twoSectionsImage name
  named := ofSymbol_twoSectionsImage name
  only := isOnlyRecord_twoSectionsImage name
  aligned := show 0x2000 % 4 = 0 by decide
  fileBacked := .tail _ (.head _)
  writable := rfl
  holds := rfl

/-- The only section with a preferred name is looked through. -/
theorem locate_noptrdata :
    Image.ofBytes (twoSectionsImage ".noptrdata").data = .ok (twoSectionsImage ".noptrdata") ∧
      locate (twoSectionsImage ".noptrdata") twoSectionsHeader = .ok (twoSectionsRecord, .symbol) ∧
      locate { twoSectionsImage ".noptrdata" with symbols := [] } twoSectionsHeader =
        .ok (twoSectionsRecord, .scan) := by
  obtain ⟨hlocate, hscan, -⟩ := locate_without_symbol (isNamed_twoSectionsImage ".noptrdata")
  exact ⟨ofBytes_twoSectionsImage (.inr rfl), hlocate, (hscan fun _ => by decide).2 [] rfl⟩

/-- The second section with the name `.data` is not. -/
theorem locate_data_ne :
    Image.ofBytes (twoSectionsImage ".data").data = .ok (twoSectionsImage ".data") ∧
      IsNamed (twoSectionsImage ".data") twoSectionsHeader twoSectionsRecord
        (recordSection ".data") ∧
      scan (twoSectionsImage ".data") twoSectionsHeader = .error .moduleDataNotFound ∧
      locate (twoSectionsImage ".data") twoSectionsHeader = .ok (twoSectionsRecord, .symbol) ∧
      locate { twoSectionsImage ".data" with symbols := [] } twoSectionsHeader =
        .error .moduleDataNotFound := by
  have hnamed := isNamed_twoSectionsImage ".data"
  have hscanned : ¬ IsScanned (twoSectionsImage ".data") (recordSection ".data") := by
    unfold IsScanned
    decide
  have hscan := hnamed.scan_eq_error hscanned
  refine ⟨ofBytes_twoSectionsImage (.inl rfl), hnamed, hscan, hnamed.locate_eq, ?_⟩
  rw [locate_of_symbols (twoSectionsImage ".data") twoSectionsHeader rfl, hscan]
  rfl

end GoImage.ModuleData
