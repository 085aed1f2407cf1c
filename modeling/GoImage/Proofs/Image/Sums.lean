import GoImage.Proofs.BuildInfo.Outcome
import GoImage.Proofs.FunctionTable.Candidates
import GoImage.Proofs.Image.Coff
import GoImage.Proofs.Image.Fields
import GoImage.Proofs.ModuleData.Search

/-! # Sums of addresses

Loading and scanning add up addresses from the headers of a file. Where a sum goes beyond the last
address the run is aborted, and which files have such sums comes down to where their sections
end. -/

namespace GoImage

/-! ## Loading -/

namespace Pe

/-- The numbers that are added up for the headers: of sections, of the entry point, and of symbols
relative to a section. -/
inductive LoadingSum (optional : OptionalHeader) (table : List SectionHeader)
    (records : List Coff.Record) : Nat → Nat → Prop
  | header {header : SectionHeader} (hheader : header ∈ table) :
      LoadingSum optional table records optional.imageBase header.virtualAddress
  | entry (hentry : optional.entry ≠ 0) :
      LoadingSum optional table records optional.imageBase optional.entry
  | symbol {record : Coff.Record} {header : SectionHeader} (hrecord : record ∈ records)
      (hnamed : ¬ (record.sectionNumber ≤ 0 ∨ record.name = ""))
      (hheader : table[record.sectionNumber.toNat - 1]? = some header) :
      LoadingSum optional table records (optional.imageBase + header.virtualAddress) record.value

variable {data : ByteArray} {headers : Headers} {file : FileHeader} {optional : OptionalHeader}
  {table : List SectionHeader} {e : Error} {records : List Coff.Record}

/-- The symbols that records stand for are the sums of their sections and their values. -/
theorem forall_mem_symbols_iff :
    (∀ symbol ∈ records.filterMap (·.symbol? (table.map (sectionOf optional.imageBase))),
        symbol.2 < wordModulus) ↔
      ∀ record ∈ records, ¬ (record.sectionNumber ≤ 0 ∨ record.name = "") →
        ∀ header, table[record.sectionNumber.toNat - 1]? = some header →
          optional.imageBase + header.virtualAddress + record.value < wordModulus := by
  constructor
  · intro h record hrecord hnamed header hheader
    refine h (record.name, _) (List.mem_filterMap.2 ⟨record, hrecord, ?_⟩)
    rw [Coff.Record.symbol?, if_neg hnamed, List.getElem?_map, hheader]
    rfl
  · rintro h ⟨name, va⟩ hmem
    obtain ⟨record, hrecord, hsymbol⟩ := List.mem_filterMap.1 hmem
    unfold Coff.Record.symbol? at hsymbol
    split at hsymbol
    · cases hsymbol
    · rename_i hnamed
      rw [List.getElem?_map, Option.map_map] at hsymbol
      obtain ⟨header, hheader, hva⟩ := Option.map_eq_some_iff.1 hsymbol
      cases hva
      exact h record hrecord hnamed header hheader

/-- There are headers exactly if no sum goes beyond the last address. -/
theorem exists_headers_iff :
    (∃ headers, Pe.headers data file optional table = .ok headers) ↔
      ∀ a b, LoadingSum optional table (file.symbolTable data).records a b →
        a + b < wordModulus := by
  constructor
  · rintro ⟨headers, h⟩ a b hsum
    obtain ⟨⟨⟩, hsections, h⟩ := exists_of_bind_eq_ok h
    obtain ⟨symbols, hsymbols, h⟩ := exists_of_bind_eq_ok h
    obtain ⟨⟨⟩, hentry, -⟩ := exists_of_bind_eq_ok h
    cases hsum with
    | header hheader =>
        exact List.forall_mem_map.1 (forM_checkAddress_eq_ok_iff.1 hsections) _ hheader
    | entry hnonzero =>
        rw [if_neg hnonzero] at hentry
        exact checkAddress_eq_ok_iff.1 hentry
    | symbol hrecord hnamed hheader =>
        obtain ⟨rfl, haddresses⟩ := Coff.Table.symbols_eq_ok_iff.1 hsymbols
        exact forall_mem_symbols_iff.1 haddresses _ hrecord hnamed _ hheader
  · intro h
    have hsections := forM_checkAddress_eq_ok_iff.2
      (List.forall_mem_map.2 fun header hheader => h _ _ (.header hheader) :
        ∀ s ∈ table.map (sectionOf optional.imageBase), s.address < wordModulus)
    have hsymbols := Coff.Table.symbols_eq_ok_iff.2 ⟨rfl, forall_mem_symbols_iff.2
      fun record hrecord hnamed header hheader => h _ _ (.symbol hrecord hnamed hheader)⟩
    have hentry : (if optional.entry = 0 then 0 else optional.imageBase + optional.entry) <
        wordModulus := by
      split
      · decide
      · rename_i hnonzero
        exact h _ _ (.entry hnonzero)
    unfold Pe.headers
    dsimp only
    rw [hsections]
    change ∃ headers, (Coff.Table.symbols _ _ >>= fun _ => _) = Except.ok headers
    rw [hsymbols]
    change ∃ headers, (checkAddress _ >>= fun _ => _) = Except.ok headers
    rw [checkAddress_eq_ok_iff.2 hentry]
    exact ⟨_, rfl⟩

/-- Tables whose sums fit stand for headers, so that nothing else is wrong with others. -/
theorem eq_aborted_of_headers (h : Pe.headers data file optional table = .error e) :
    e = .aborted := by
  unfold Pe.headers at h
  rcases bind_eq_error_iff.1 h with h | ⟨⟨⟩, -, h⟩
  · exact (forM_checkAddress_eq_error_iff.1 h).1
  rcases bind_eq_error_iff.1 h with h | ⟨symbols, -, h⟩
  · exact (Coff.Table.symbols_eq_error_iff.1 h).1
  rcases bind_eq_error_iff.1 h with h | ⟨⟨⟩, -, h⟩
  · exact (checkAddress_eq_error_iff.1 h).1
  · cases h

theorem headers_eq_error_iff :
    Pe.headers data file optional table = .error e ↔
      e = .aborted ∧ ∃ a b, LoadingSum optional table (file.symbolTable data).records a b ∧
        wordModulus ≤ a + b := by
  constructor
  · intro h
    refine ⟨eq_aborted_of_headers h, ?_⟩
    by_contra hnone
    simp only [not_exists, not_and, Nat.not_le] at hnone
    obtain ⟨headers, hok⟩ := exists_headers_iff.2 hnone
    exact nomatch h.symm.trans hok
  · rintro ⟨rfl, a, b, hsum, hle⟩
    cases h : Pe.headers data file optional table with
    | ok headers => exact absurd (exists_headers_iff.1 ⟨headers, h⟩ a b hsum) (Nat.not_lt.2 hle)
    | error e => rw [eq_aborted_of_headers h]

theorem value_lt_of_mem_records {record : Coff.Record}
    (h : record ∈ (file.symbolTable data).records) : record.value < 256 ^ 4 := by
  unfold Coff.Table.records at h
  split at h
  · exact absurd h List.not_mem_nil
  · exact Coff.Table.value_lt_of_mem h

/-- Loading adds at most two fields of 32 bits to the address that the image is made for. -/
theorem loadingSum_lt (htables : headerTables.on { data } = .ok (file, optional, table)) {a b : Nat}
    (hsum : LoadingSum optional table (file.symbolTable data).records a b) :
    a + b < optional.imageBase + 0x200000000 := by
  obtain ⟨hoptional, htable⟩ := fits_of_headerTables htables
  cases hsum with
  | header hheader =>
      have haddress := (htable _ hheader).virtualAddress
      omega
  | entry hnonzero =>
      have hentry := hoptional.entry
      omega
  | symbol hrecord hnamed hheader =>
      have haddress := (htable _ (List.mem_of_getElem? hheader)).virtualAddress
      have hvalue := value_lt_of_mem_records hrecord
      omega

theorem bounds_of_mem {s : Section} (h : Pe.headers data file optional table = .ok headers)
    (htables : headerTables.on { data } = .ok (file, optional, table)) (hs : s ∈ headers.sections) :
    s.address < optional.imageBase + 256 ^ 4 ∧ s.fileSize < 256 ^ 4 := by
  rw [(sections_of_headers h).1] at hs
  obtain ⟨header, hheader, rfl⟩ := List.mem_map.1 hs
  obtain ⟨haddress, hsize⟩ := (fits_of_headerTables htables).2 header hheader
  exact ⟨Nat.add_lt_add_left haddress _,
    Nat.lt_of_le_of_lt (fileSize_le_rawSize optional.imageBase header) hsize⟩

end Pe

/-! ## Scanning -/

/-- No aligned position of some bytes goes beyond the last address exactly if no more bytes do than
each position needs. -/
theorem alignedOffsets_fit_iff {alignment width address size : Nat}
    (halignment : wordModulus % alignment = 0) (haddress : address < wordModulus) :
    (∀ pos ∈ alignedOffsets alignment width address size, address + pos < wordModulus) ↔
      address + size < wordModulus + width := by
  constructor
  · intro h
    by_contra hbeyond
    -- The end of the address space is a multiple of the alignment, so a scan comes by it.
    have hbehind : address + (wordModulus - address) = wordModulus := by omega
    have hmem : wordModulus - address ∈ alignedOffsets alignment width address size :=
      mem_alignedOffsets.2 ⟨by rw [hbehind, halignment], by omega⟩
    have hlt := h _ hmem
    omega
  · intro h pos hpos
    obtain ⟨-, hwidth⟩ := mem_alignedOffsets.1 hpos
    omega

namespace Image

variable {data : ByteArray} {image : Image} {s : Section}

/-- Whether a scan of these sections looks at a position of one of them. -/
structure ScansAt (image : Image) (alignment width : Nat) (sections : List Section) (s : Section)
    (pos : Nat) : Prop where
  mem : s ∈ sections
  aligned : ∃ content, image.content s = .ok content ∧
    pos ∈ alignedOffsets alignment width s.address content.size

/-- The addresses and positions that the scans for the function table, the module data and the build
information add up. -/
inductive ScanningSum (image : Image) : Section → Nat → Prop
  | functionTable {s : Section} {pos : Nat} (h : image.ScansAt 4 8 image.fileBackedSections s pos) :
      ScanningSum image s pos
  | moduleData {s : Section} {pos : Nat}
      (h : image.ScansAt image.pointerSize.bytes image.pointerSize.bytes
        (image.sectionsByPreference ModuleData.preferredSections) s pos) : ScanningSum image s pos
  | buildInfo {s : Section} {pos : Nat}
      (h : image.ScansAt 16 BuildInfo.headerSize
        (image.sectionsByPreference BuildInfo.sectionNames) s pos) : ScanningSum image s pos

/-- Whether all sections with content end where the last position that a scan looks at is in the
address space. -/
def EndsInReach (image : Image) : Prop :=
  ∀ s ∈ image.fileBackedSections, s.offset + s.fileSize ≤ image.data.size →
    s.address + s.fileSize < wordModulus + 8

namespace EndsInReach

variable {content : ByteArray} {pos : Nat}

/-- What has eight bytes of content from it on is at an address. -/
theorem lt_wordModulus (h : image.EndsInReach) (hs : s ∈ image.sections)
    (hcontent : image.content s = .ok content) (hroom : pos + 8 ≤ content.size) :
    s.address + pos < wordModulus := by
  have hbacked := isFileBacked_of_content hcontent (by omega)
  have hsize := size_content_le hcontent
  have hend := h s (mem_fileBackedSections.2 ⟨hs, hbacked⟩) (fits_of_content hcontent hbacked)
  omega

/-- In a narrow image one word is enough, as its sections end far below the last address. -/
theorem lt_of_word (h : image.EndsInReach) (hreach : image.WithinReach) (hs : s ∈ image.sections)
    (hcontent : image.content s = .ok content)
    (hroom : pos + image.pointerSize.bytes ≤ content.size) : s.address + pos < wordModulus := by
  cases hwidth : image.pointerSize with
  | four =>
      obtain ⟨haddress, hfile⟩ := hreach s hs
      have hsize := size_content_le hcontent
      rw [hwidth] at haddress hfile
      dsimp only [PointerSize.reach] at haddress hfile
      unfold wordModulus
      omega
  | eight =>
      rw [hwidth] at hroom
      exact h.lt_wordModulus hs hcontent hroom

theorem lt_of_bytesFrom {bytes : ByteArray} {va : Nat} (h : image.EndsInReach)
    (hbytes : image.bytesFrom va = .ok bytes) (hroom : 8 ≤ bytes.size) : va < wordModulus := by
  obtain ⟨s, content, hfirst, hcontent, -, rfl⟩ := exists_of_bytesFrom hbytes
  obtain ⟨hs, hholds⟩ := holds_of_sectionHolding? hfirst
  rw [Section.holds_iff] at hholds
  rw [ByteArray.size_extract] at hroom
  have hlt : s.address + (va - s.address) < wordModulus :=
    h.lt_wordModulus hs hcontent (by omega)
  omega

/-- Narrow images lie far below the end of the address space. -/
theorem of_narrow (hreach : image.WithinReach) (hnarrow : image.pointerSize = .four) :
    image.EndsInReach := by
  intro s hs _
  obtain ⟨haddress, hsize⟩ := hreach s (mem_fileBackedSections.1 hs).1
  rw [hnarrow] at haddress hsize
  dsimp only [PointerSize.reach] at haddress hsize
  unfold wordModulus
  omega

end EndsInReach

theorem scanningSums_fit_iff (hreach : image.WithinReach) :
    (∀ s pos, image.ScanningSum s pos → s.address + pos < wordModulus) ↔ image.EndsInReach := by
  constructor
  · intro h s hs hfits
    obtain ⟨hmem, hbacked⟩ := mem_fileBackedSections.1 hs
    have hcontent := content_eq hbacked hfits
    have hsize : (image.data.extract s.offset (s.offset + s.fileSize)).size = s.fileSize := by
      rw [ByteArray.size_extract]
      omega
    have haddress : s.address < wordModulus :=
      Nat.lt_of_lt_of_le (hreach s hmem).1 image.pointerSize.reach_le
    rw [← hsize]
    exact (alignedOffsets_fit_iff (by decide) haddress).1 fun pos hpos =>
      h s pos (.functionTable ⟨hs, _, hcontent, hpos⟩)
  · intro h s pos hsum
    cases hsum with
    | functionTable hscan =>
        obtain ⟨content, hcontent, hpos⟩ := hscan.aligned
        exact h.lt_wordModulus (mem_fileBackedSections.1 hscan.mem).1 hcontent
          (mem_alignedOffsets.1 hpos).2
    | moduleData hscan =>
        obtain ⟨content, hcontent, hpos⟩ := hscan.aligned
        exact h.lt_of_word hreach (mem_of_mem_sectionsByPreference hscan.mem) hcontent
          (mem_alignedOffsets.1 hpos).2
    | buildInfo hscan =>
        obtain ⟨content, hcontent, hpos⟩ := hscan.aligned
        have hroom := (mem_alignedOffsets.1 hpos).2
        unfold BuildInfo.headerSize at hroom
        exact h.lt_wordModulus (mem_of_mem_sectionsByPreference hscan.mem) hcontent (by omega)

end Image

/-! ## Places that searches come to -/

namespace FunctionTable

variable {image : Image} {forced : Option Layout} {location : Location}

/-- A table at a given address has room for the start of a header there. -/
theorem room_of_accept? {source : Source} {va : Nat}
    (h : accept? image forced source va = some location) :
    location.va = va ∧ ∃ bytes, image.bytesFrom va = .ok bytes ∧ 8 ≤ bytes.size := by
  unfold accept? at h
  cases hbytes : image.bytesFrom va with
  | error e =>
      rw [hbytes] at h
      cases h
  | ok bytes =>
      rw [hbytes] at h
      cases hlayout : layoutAt? image.order bytes 0 with
      | some layout =>
          have hsize := (layoutAt?_eq_some_iff.1 hlayout).size
          simp only [Except.toOption, Option.bind_eq_bind, Option.bind_some, hlayout] at h
          cases h
          exact ⟨rfl, bytes, rfl, hsize⟩
      | none =>
          simp only [Except.toOption, Option.bind_eq_bind, Option.bind_some, hlayout] at h
          cases forced with
          | none => cases h
          | some layout =>
              obtain ⟨hsize, h⟩ := Option.ite_none_right_eq_some.1 h
              cases h
              exact ⟨rfl, bytes, rfl, hsize⟩

theorem lt_wordModulus_of_locate? (hends : image.EndsInReach)
    (h : locate? image forced = some location) : location.va < wordModulus := by
  have hnamed : ∀ source va, accept? image forced source va = some location →
      location.va < wordModulus := by
    intro source va haccept
    obtain ⟨rfl, bytes, hbytes, hroom⟩ := room_of_accept? haccept
    exact hends.lt_of_bytesFrom hbytes hroom
  unfold locate? at h
  rcases Option.or_eq_some_iff.1 h with h | ⟨-, h⟩
  · rcases Option.or_eq_some_iff.1 h with h | ⟨-, h⟩
    · obtain ⟨s, -, hs⟩ := List.exists_of_findSome?_eq_some h
      exact hnamed _ _ hs
    · obtain ⟨va, -, hva⟩ := Option.bind_eq_some_iff.1 h
      exact hnamed _ _ hva
  · obtain ⟨s, hs, hscan⟩ := List.exists_of_findSome?_eq_some h
    obtain ⟨content, pos, hcontent, -, hroom, hfound⟩ := Image.exists_of_scanSection? hscan
    have hva : location.va = s.address + pos := by
      split at hfound
      · split at hfound
        · split at hfound
          · cases hfound
            rfl
          · cases hfound
        · cases hfound
      · cases hfound
    rw [hva]
    exact hends.lt_wordModulus (Image.mem_fileBackedSections.1 hs).1 hcontent hroom

theorem eq_unknownVersion_of_ofRelease {name : String} {e : Error}
    (h : Layout.ofRelease name = .error e) : e = .unknownVersion := by
  unfold Layout.ofRelease Layout.ofMinor at h
  grind

/-- What is found is at an address, so that it is answered with. -/
theorem answer_ne_aborted (hends : image.EndsInReach) (h : locate? image forced = some location) :
    (checkAddress location.va).map (fun _ => location) ≠ .error .aborted := by
  rw [checkAddress_eq_ok_iff.2 (lt_wordModulus_of_locate? hends h)]
  intro haborted
  cases haborted

theorem locate_ne_aborted (hends : image.EndsInReach) (release : Option String) :
    locate image release ≠ .error .aborted := by
  cases release with
  | none =>
      cases hfound : locate? image none with
      | some location =>
          rw [locate_of_some hfound]
          exact answer_ne_aborted hends hfound
      | none =>
          rw [locate_of_none hfound]
          intro h
          cases h
  | some name =>
      cases hname : Layout.ofRelease name with
      | ok layout =>
          cases hfound : locate? image (some layout) with
          | some location =>
              rw [locate_of_release hname hfound]
              exact answer_ne_aborted hends hfound
          | none =>
              rw [locate_of_release_none hname hfound]
              intro h
              cases h
      | error e =>
          rw [locate, hname, eq_unknownVersion_of_ofRelease hname]
          intro h
          cases h

end FunctionTable

namespace ModuleData

theorem locate_ne_aborted {image : Image} (hends : image.EndsInReach)
    (hreach : image.WithinReach) (header : FunctionTable.Header) :
    locate image header ≠ .error .aborted := by
  intro h
  unfold locate at h
  split at h
  · cases h
  split at h
  · cases h
  · rename_i hscan
    cases h
    unfold scan at hscan
    split at hscan
    · rename_i answer hanswer
      subst hscan
      obtain ⟨s, hs, hfound⟩ := List.exists_of_findSome?_eq_some hanswer
      obtain ⟨content, pos, hcontent, hroom, hanswer⟩ := exists_of_scanSection? hfound
      rw [answerAt?_of_lt (hends.lt_of_word hreach (Image.mem_of_mem_sectionsByPreference hs)
        hcontent hroom)] at hanswer
      obtain ⟨m, -, hm⟩ := Option.map_eq_some_iff.1 hanswer
      cases hm
    · cases hscan

end ModuleData

namespace Image

variable {data : ByteArray} {image : Image}

/-- Whether no search comes to a place behind the last address. -/
structure NoScanAborts (image : Image) : Prop where
  functionTable : ∀ release, FunctionTable.locate image release ≠ .error .aborted
  moduleData : ∀ header, ModuleData.locate image header ≠ .error .aborted
  buildInfo : ∀ va, BuildInfo.locate? image = some va → va < wordModulus

theorem EndsInReach.noScanAborts (h : image.EndsInReach) (hreach : image.WithinReach) :
    image.NoScanAborts where
  functionTable := FunctionTable.locate_ne_aborted h
  moduleData := ModuleData.locate_ne_aborted h hreach
  buildInfo va hva := by
    obtain ⟨s, hs, content, pos, hcontent, hroom, rfl⟩ := BuildInfo.exists_section_of_locate? hva
    unfold BuildInfo.headerSize at hroom
    exact h.lt_wordModulus hs hcontent (by omega)

theorem ne_pe_of_empty (hsize : data.size = 0) : Format.ofBytes data ≠ .ok .pe := by
  obtain rfl : data = ByteArray.empty := ByteArray.size_eq_zero_iff.1 hsize
  decide +kernel

theorem headers_eq_of_tables {file : Pe.FileHeader} {optional : Pe.OptionalHeader}
    {table : List Pe.SectionHeader} (hformat : Format.ofBytes data = .ok .pe)
    (htables : Pe.headerTables.on { data } = .ok (file, optional, table)) :
    Headers.ofBytes data = Pe.headers data file optional table := by
  unfold Headers.ofBytes
  rw [hformat, htables]
  rfl

theorem ofBytes_eq_error_iff {e : Error} (hsize : data.size ≠ 0) :
    Image.ofBytes data = .error e ↔ Headers.ofBytes data = .error e := by
  unfold Image.ofBytes
  rw [if_neg hsize]
  cases Headers.ofBytes data with
  | ok headers => exact ⟨nofun, nofun⟩
  | error e' => exact ⟨fun h => congrArg Except.error (Except.error.inj h),
      fun h => congrArg Except.error (Except.error.inj h)⟩

theorem ne_aborted_of_mapError {α : Type} {x : Except Error α} :
    x.mapError (fun _ => Error.container) ≠ .error .aborted := by
  cases x <;> exact nofun

/-- Loading is aborted exactly if some sum for the headers goes beyond the last address. -/
theorem ofBytes_eq_aborted_iff :
    Image.ofBytes data = .error .aborted ↔
      Format.ofBytes data = .ok .pe ∧ ∃ file optional table,
        Pe.headerTables.on { data } = .ok (file, optional, table) ∧
        ∃ a b, Pe.LoadingSum optional table (file.symbolTable data).records a b ∧
          wordModulus ≤ a + b := by
  constructor
  · intro h
    have hsize : data.size ≠ 0 := fun hzero => by
      unfold Image.ofBytes at h
      rw [if_pos hzero] at h
      cases h
    rcases bind_eq_error_iff.1 ((ofBytes_eq_error_iff hsize).1 h) with h | ⟨format, hformat, h⟩
    · unfold Format.ofBytes at h
      grind
    · cases format with
      | elf => exact absurd h ne_aborted_of_mapError
      | machO => exact absurd h ne_aborted_of_mapError
      | pe =>
          rcases bind_eq_error_iff.1 h with h | ⟨⟨file, optional, table⟩, htables, h⟩
          · exact absurd h ne_aborted_of_mapError
          · exact ⟨hformat, file, optional, table, eq_ok_of_mapError htables,
              (Pe.headers_eq_error_iff.1 h).2⟩
  · rintro ⟨hformat, file, optional, table, htables, hsum⟩
    rw [ofBytes_eq_error_iff fun hsize => ne_pe_of_empty hsize hformat,
      headers_eq_of_tables hformat htables]
    exact Pe.headers_eq_error_iff.2 ⟨rfl, hsum⟩

/-- Whether no sum of addresses goes beyond the last one, of the headers of a file and of the scans
of the image that it loads to. -/
structure SumsFit (data : ByteArray) : Prop where
  loading : Format.ofBytes data = .ok .pe → ∀ file optional table,
    Pe.headerTables.on { data } = .ok (file, optional, table) → ∀ a b,
      Pe.LoadingSum optional table (file.symbolTable data).records a b → a + b < wordModulus
  scanning : ∀ image, Image.ofBytes data = .ok image → ∀ s pos, image.ScanningSum s pos →
    s.address + pos < wordModulus

/-- A file that is made for an address with room for all that its headers can add. -/
theorem sumsFit_of_imageBase {file : Pe.FileHeader} {optional : Pe.OptionalHeader}
    {table : List Pe.SectionHeader} (hformat : Format.ofBytes data = .ok .pe)
    (htables : Pe.headerTables.on { data } = .ok (file, optional, table))
    (hbase : optional.imageBase + 0x200000000 ≤ wordModulus) : SumsFit data := by
  refine ⟨fun _ file' optional' table' htables' a b hsum => ?_, fun image hload => ?_⟩
  · rw [htables] at htables'
    cases htables'
    exact Nat.lt_of_lt_of_le (Pe.loadingSum_lt htables hsum) hbase
  · refine (scanningSums_fit_iff (withinReach_of_ofBytes hload)).2 fun s hs hfits => ?_
    obtain ⟨headers, hheaders, rfl⟩ := exists_headers_of_ofBytes hload
    rw [headers_eq_of_tables hformat htables] at hheaders
    obtain ⟨haddress, hsize⟩ :=
      Pe.bounds_of_mem hheaders htables (mem_fileBackedSections.1 hs).1
    omega

/-- No sum of addresses goes beyond the last one exactly if loading is not aborted and every section
with content ends less than eight bytes behind the last address. Then no search is aborted either.
This is so of every file that loads to a narrow image, and of one that is made for an address with
the room of two fields of 32 bits behind it. -/
theorem sumsFit_iff (data : ByteArray) :
    (SumsFit data ↔ Image.ofBytes data ≠ .error .aborted ∧
      ∀ image, Image.ofBytes data = .ok image → image.EndsInReach) ∧
    (Image.ofBytes data = .error .aborted ↔
      Format.ofBytes data = .ok .pe ∧ ∃ file optional table,
        Pe.headerTables.on { data } = .ok (file, optional, table) ∧
        ∃ a b, Pe.LoadingSum optional table (file.symbolTable data).records a b ∧
          wordModulus ≤ a + b) ∧
    (SumsFit data → ∀ image, Image.ofBytes data = .ok image → image.NoScanAborts) ∧
    (∀ image, Image.ofBytes data = .ok image → image.pointerSize = .four → SumsFit data) ∧
    ∀ file optional table, Format.ofBytes data = .ok .pe →
      Pe.headerTables.on { data } = .ok (file, optional, table) →
      optional.imageBase + 0x200000000 ≤ wordModulus → SumsFit data := by
  have hiff : SumsFit data ↔ Image.ofBytes data ≠ .error .aborted ∧
      ∀ image, Image.ofBytes data = .ok image → image.EndsInReach := by
    constructor
    · intro h
      refine ⟨fun habort => ?_, fun image hload =>
        (scanningSums_fit_iff (withinReach_of_ofBytes hload)).1 (h.scanning image hload)⟩
      obtain ⟨hformat, file, optional, table, htables, a, b, hsum, hle⟩ :=
        ofBytes_eq_aborted_iff.1 habort
      exact Nat.not_lt.2 hle (h.loading hformat file optional table htables a b hsum)
    · rintro ⟨hload, hends⟩
      refine ⟨fun hformat file optional table htables a b hsum => ?_, fun image hload =>
        (scanningSums_fit_iff (withinReach_of_ofBytes hload)).2 (hends image hload)⟩
      by_contra hle
      exact hload (ofBytes_eq_aborted_iff.2
        ⟨hformat, file, optional, table, htables, a, b, hsum, Nat.not_lt.1 hle⟩)
  refine ⟨hiff, ofBytes_eq_aborted_iff, fun h image hload => ?_, fun image hload hnarrow => ?_,
    fun _ _ _ => sumsFit_of_imageBase⟩
  · exact ((hiff.1 h).2 image hload).noScanAborts (withinReach_of_ofBytes hload)
  · refine hiff.2 ⟨fun habort => (nomatch hload.symm.trans habort), fun image' hload' => ?_⟩
    obtain rfl : image = image' := Except.ok.inj (hload.symm.trans hload')
    exact .of_narrow (withinReach_of_ofBytes hload) hnarrow

/-! ## An image at the end of the address space -/

/-- A program that is made for the address 0xffff0000 and four bytes `high` above it, with one
section 0x20000 bytes further on. -/
def baseFile (high : UInt8) : ByteArray :=
  ⟨#[0x4d, 0x5a, 0, 0, 0, 0, 0, 0, 0, 0, 0, 0, 0, 0, 0, 0, 0, 0, 0, 0, 0, 0, 0, 0, 0, 0, 0, 0, 0,
     0, 0, 0, 0, 0, 0, 0, 0, 0, 0, 0, 0, 0, 0, 0, 0, 0, 0, 0, 0, 0, 0, 0, 0, 0, 0, 0, 0, 0, 0, 0,
     0x40, 0, 0, 0, 0x50, 0x45, 0, 0, 0x64, 0x86, 1, 0, 0, 0, 0, 0, 0, 0, 0, 0, 0, 0, 0, 0, 0x70,
     0, 0, 0, 0xb, 2, 0, 0, 0, 0, 0, 0, 0, 0, 0, 0, 0, 0, 0, 0, 0, 0, 0, 0, 0, 0, 0, 0, 0, 0,
     0xff, 0xff, high, high, high, high, 0, 0, 0, 0, 0, 0, 0, 0, 0, 0, 0, 0, 0, 0, 0, 0, 0, 0, 0,
     0, 0, 0, 0, 0, 0, 0, 0, 0, 0, 0, 0, 0, 0, 0, 0, 0, 0, 0, 0, 0, 0, 0, 0, 0, 0, 0, 0, 0, 0, 0,
     0, 0, 0, 0, 0, 0, 0, 0, 0, 0, 0, 0, 0, 0, 0, 0, 0, 0, 0, 0, 0, 0, 0, 0, 0, 0, 0, 0, 0, 0,
     0x2e, 0x64, 0x61, 0x74, 0x61, 0, 0, 0, 8, 0, 0, 0, 0, 0, 2, 0, 8, 0, 0, 0, 0xf0, 0, 0, 0, 0,
     0, 0, 0, 0, 0, 0, 0, 0, 0, 0, 0, 0x40, 0, 0, 0xc0, 0, 0, 0, 0, 0, 0, 0, 0]⟩

def baseSection (address : Nat) : Section :=
  { name := ".data", address, size := 8, offset := 240, fileSize := 8
    executable := false, writable := true, initialized := true }

def baseImage (high : UInt8) (address : Nat) : Image :=
  { format := .pe
    sections := [baseSection address]
    symbols := []
    entry := 0
    pointerSize := .eight
    order := .little
    arch := "amd64"
    os := "windows"
    data := baseFile high }

/-- The tables of these headers. -/
def baseTables (imageBase : Nat) : Pe.FileHeader × Pe.OptionalHeader × List Pe.SectionHeader :=
  (⟨0x8664, 1, 0, 0, 0x70⟩, ⟨.eight, 0, imageBase⟩, [⟨".data", 8, 0x20000, 8, 240, 0xc0000040⟩])

theorem ofBytes_baseFile_low :
    Image.ofBytes (baseFile 0) = .ok (baseImage 0 0x100010000) ∧
      Format.ofBytes (baseFile 0) = .ok .pe ∧
      Pe.headerTables.on { data := baseFile 0 } = .ok (baseTables 0xffff0000) :=
  ⟨ofBytes_eq_ok rfl (by decide +kernel) (eq_ok_of_toOption (by decide +kernel)),
    eq_ok_of_toOption (by decide +kernel), eq_ok_of_toOption (by decide +kernel)⟩

theorem ofBytes_baseFile_high :
    Format.ofBytes (baseFile 0xff) = .ok .pe ∧
      Pe.headerTables.on { data := baseFile 0xff } = .ok (baseTables 0xffffffffffff0000) :=
  ⟨eq_ok_of_toOption (by decide +kernel), eq_ok_of_toOption (by decide +kernel)⟩

/-- With four gigabytes of room and more, the section is where it should be. -/
theorem sumsFit_baseFile :
    Image.ofBytes (baseFile 0) = .ok (baseImage 0 0x100010000) ∧ SumsFit (baseFile 0) ∧
      (baseImage 0 0x100010000).NoScanAborts := by
  obtain ⟨hload, hformat, htables⟩ := ofBytes_baseFile_low
  obtain ⟨-, -, hscans, -, hbase⟩ := sumsFit_iff (baseFile 0)
  have hfits := hbase _ _ _ hformat htables (by decide)
  exact ⟨hload, hfits, hscans hfits _ hload⟩

/-- Close to the end of the address space, loading is aborted at the section. In a file of another
format that is loaded, the search is. -/
theorem not_sumsFit_baseFile :
    Image.ofBytes (baseFile 0xff) = .error .aborted ∧ ¬ SumsFit (baseFile 0xff) ∧
      Image.ofBytes FunctionTable.highFile = .ok FunctionTable.highImage ∧
      FunctionTable.locate FunctionTable.highImage none = .error .aborted ∧
      ¬ SumsFit FunctionTable.highFile := by
  obtain ⟨hformat, htables⟩ := ofBytes_baseFile_high
  have hsum : Pe.LoadingSum (baseTables 0xffffffffffff0000).2.1 (baseTables 0xffffffffffff0000).2.2
      ((baseTables 0xffffffffffff0000).1.symbolTable (baseFile 0xff)).records
      0xffffffffffff0000 0x20000 := .header (List.mem_singleton.2 rfl)
  have hload := FunctionTable.ofBytes_highImage
  have hlocate := FunctionTable.locate_eq_aborted_iff.2
    ⟨_, FunctionTable.locate?_highImage, Nat.le_refl _⟩
  refine ⟨ofBytes_eq_aborted_iff.2 ⟨hformat, _, _, _, htables, _, _, hsum, by decide⟩,
    fun h => ?_, hload, hlocate, fun h => ?_⟩
  · exact absurd (h.loading hformat _ _ _ htables _ _ hsum) (by decide)
  · have hreach := withinReach_of_ofBytes hload
    have hends := (scanningSums_fit_iff hreach).1 (h.scanning _ hload)
    exact FunctionTable.locate_ne_aborted hends none hlocate

end Image

end GoImage
