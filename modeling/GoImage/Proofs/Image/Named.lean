import GoImage.Proofs.Bytes.Text
import GoImage.Proofs.Image.Load
import GoImage.Proofs.Image.Written

/-! # Files of named sections

A file of sections and symbols with names is loaded to the image of these, whatever the sections
hold. The content of the sections stands behind the file header, and the tables behind that. -/

namespace GoImage

/-! ## Names -/

/-- Names one behind the other, each with a zero byte at its end. -/
def namesBytes (names : List String) : List UInt8 :=
  names.flatMap fun name => textBytes name ++ [0]

/-- Items with the offsets of their names, if these start at an offset. -/
def withOffsets {ι : Type} (name : ι → String) : Nat → List ι → List (Nat × ι)
  | _, [] => []
  | offset, i :: rest => (offset, i) :: withOffsets name (offset + (name i).utf8ByteSize + 1) rest

section Names

variable {ι : Type} {name : ι → String}

theorem map_snd_withOffsets (offset : Nat) (items : List ι) :
    (withOffsets name offset items).map (·.2) = items := by
  induction items generalizing offset with
  | nil => rfl
  | cons i rest ih => rw [withOffsets, List.map_cons, ih]

theorem mem_of_mem_withOffsets {offset : Nat} {items : List ι} {p : Nat × ι}
    (hp : p ∈ withOffsets name offset items) : p.2 ∈ items :=
  map_snd_withOffsets offset items ▸ List.mem_map_of_mem hp

/-- The name of each item stands at its offset. -/
theorem standsAt_of_mem_withOffsets {items : List ι} {offset : Nat} {table : ByteArray}
    (hstands : StandsAt (namesBytes (items.map name)) table offset) {p : Nat × ι}
    (hp : p ∈ withOffsets name offset items) :
    StandsAt (textBytes (name p.2) ++ [0]) table p.1 := by
  induction items generalizing offset with
  | nil => cases hp
  | cons i rest ih =>
      obtain ⟨hfirst, hrest⟩ := standsAt_append.1 hstands
      rw [List.length_append, length_textBytes, List.length_singleton, ← Nat.add_assoc] at hrest
      rcases List.mem_cons.1 hp with rfl | hp
      · exact hfirst
      · exact ih hrest hp

theorem textAt?_of_standsAt {text : String} {data : ByteArray} {pos : Nat}
    (h : '\x00' ∉ text.toList) (hstands : StandsAt (textBytes text ++ [0]) data pos) :
    textAt? data pos = some text := by
  have hle := hstands.le_size
  rw [List.length_append, List.length_singleton] at hle
  obtain ⟨rest, hrest⟩ := hstands.drop_eq
  have hbytes : beforeZero (data.data.toList.drop pos) = textBytes text := by
    rw [hrest, List.append_assoc]
    exact beforeZero_append_cons (zero_notMem_textBytes h) rest
  rw [textAt?, if_pos (by omega), extract_untilZero (by omega), hbytes, toByteArray_textBytes,
    fromUTF8?_toByteArray]

theorem validateUTF8_namesBytes (names : List String) :
    (namesBytes names).toByteArray.validateUTF8 = true := by
  rw [ByteArray.validateUTF8_eq_true_iff]
  induction names with
  | nil => exact isValidUTF8_textBytes ""
  | cons name names ih =>
      have hzero : ([0] : List UInt8).toByteArray.IsValidUTF8 := isValidUTF8_textBytes "\x00"
      rw [namesBytes, List.flatMap_cons, List.toByteArray_append, List.toByteArray_append]
      exact ((isValidUTF8_textBytes name).append hzero).append ih

end Names

theorem PointerSize.word_le (width : PointerSize) : 256 ^ 4 ≤ 256 ^ width.bytes := by
  cases width <;> decide

namespace Elf

open Decoder

/-! ## Headers in bytes -/

def fileHeaderSize (width : PointerSize) : Nat :=
  40 + 3 * width.bytes

def sectionHeaderSize (width : PointerSize) : Nat :=
  16 + 6 * width.bytes

def symbolSize (width : PointerSize) : Nat :=
  8 + 2 * width.bytes

/-- The byte that states the width of addresses. -/
def widthByte : PointerSize → Nat
  | .four => 1
  | .eight => 2

/-- The byte that states the order of bytes. -/
def orderByte : ByteOrder → Nat
  | .little => 1
  | .big => 2

/-- The number of the machine that a file is for: a narrow one and a wide one of one kind. -/
def machineOf : PointerSize → Nat
  | .four => 3
  | .eight => 62

/-- The first bytes of a file: the magic number, width, byte order, version and operating system. -/
def identificationBytes (width : PointerSize) (order : ByteOrder) : List UInt8 :=
  Format.elfMagic ++ ([UInt8.ofNat (widthByte width)] ++ ([UInt8.ofNat (orderByte order)] ++
    ([1] ++ [0])))

/-- A file header that says where so many section headers stand, the first one that of the names of
sections, and that there are no program headers. -/
def fileHeaderBytes (width : PointerSize) (order : ByteOrder) (sectionOffset count : Nat) :
    List UInt8 :=
  identificationBytes width order ++ List.replicate 8 0 ++ order.encode 2 2 ++
    (order.encode 2 (machineOf width) ++ (order.encode 4 1 ++ (order.encode width.bytes 0 ++
      (order.encode width.bytes 0 ++ (order.encode width.bytes sectionOffset ++
        ((order.encode 4 0 ++ order.encode 2 (fileHeaderSize width) ++ order.encode 2 0) ++
          (order.encode 2 0 ++ (order.encode 2 (sectionHeaderSize width) ++
            (order.encode 2 count ++ order.encode 2 0)))))))))

def SectionHeader.bytes (width : PointerSize) (order : ByteOrder) (header : SectionHeader) :
    List UInt8 :=
  order.encode 4 header.name ++ (order.encode 4 header.type ++
    (order.encode width.bytes header.flags ++ (order.encode width.bytes header.address ++
      (order.encode width.bytes header.offset ++ (order.encode width.bytes header.size ++
        (order.encode 4 header.link ++ (order.encode 4 0 ++ (order.encode width.bytes 1 ++
          order.encode width.bytes header.entrySize))))))))

/-- Whether the numbers of a section header fit its fields. -/
structure SectionHeader.IsWritable (width : PointerSize) (header : SectionHeader) : Prop where
  name : header.name < 256 ^ 4
  type : header.type < 256 ^ 4
  flags : header.flags < 256 ^ width.bytes
  address : header.address < 256 ^ width.bytes
  offset : header.offset < 256 ^ width.bytes
  size : header.size < 256 ^ width.bytes
  link : header.link < 256 ^ 4
  entrySize : header.entrySize < 256 ^ width.bytes

/-- A symbol by the offset of its name, and its value. -/
def symbolBytes (width : PointerSize) (order : ByteOrder) (symbol : Nat × Nat) : List UInt8 :=
  order.encode 4 symbol.1 ++
    match width with
    | .four => order.encode 4 symbol.2 ++ List.replicate 8 0
    | .eight => List.replicate 4 0 ++ (order.encode 8 symbol.2 ++ List.replicate 8 0)

variable {width : PointerSize} {order : ByteOrder} {sectionOffset count : Nat}

theorem length_fileHeaderBytes :
    (fileHeaderBytes width order sectionOffset count).length = fileHeaderSize width := by
  simp only [fileHeaderBytes, identificationBytes, Format.elfMagic, List.length_append,
    List.length_cons, List.length_nil, List.length_replicate, ByteOrder.length_encode,
    fileHeaderSize]
  omega

theorem SectionHeader.length_bytes (header : SectionHeader) :
    (header.bytes width order).length = sectionHeaderSize width := by
  simp only [bytes, List.length_append, ByteOrder.length_encode, sectionHeaderSize]
  omega

theorem length_symbolBytes (symbol : Nat × Nat) :
    (symbolBytes width order symbol).length = symbolSize width := by
  cases width <;> simp [symbolBytes, symbolSize, PointerSize.bytes]

/-! ## Reading them -/

/-- What a file header says that announces so many section headers and no program headers. -/
def fileHeaderOf (width : PointerSize) (sectionOffset count : Nat) : FileHeader :=
  { machine := machineOf width, entry := 0, programOffset := 0, sectionOffset
    programCount := 0, sectionCount := count, namesIndex := 0 }

theorem widthByte_lt (width : PointerSize) : widthByte width < 256 := by
  cases width <;> decide

theorem orderByte_lt (order : ByteOrder) : orderByte order < 256 := by
  cases order <;> decide

theorem machineOf_lt (width : PointerSize) : machineOf width < 256 ^ 2 := by
  cases width <;> decide

theorem identification_readsAt :
    ReadsAt .little 8 0 identification (identificationBytes width order) (width, order, 0) := by
  have hend : ∀ start, ReadsAt .little 8 start
      (do skip 1; return (width, order, ← word 1) : Decoder (PointerSize × ByteOrder × Nat))
      ([1] ++ [0]) (width, order, 0) :=
    ((Reads.skip [1]).bind ((Reads.byte (n := 0) (by decide)).bind_nil
      (.pure (width, order, 0)))).readsAt
  unfold identification
  cases width <;> cases order <;>
    exact (ReadsAt.seek rfl).bind (((Reads.byte (widthByte_lt _)).readsAt _).bind
      (.nil_bind ((Reads.pure _).readsAt _) (((Reads.byte (orderByte_lt _)).readsAt _).bind
        (.nil_bind ((Reads.pure _).readsAt _) (hend _)))))

theorem fileHeader_readsAt (hoffset : sectionOffset < 256 ^ width.bytes)
    (hcount : count < 256 ^ 2) :
    ReadsAt order width.bytes 0 fileHeader (fileHeaderBytes width order sectionOffset count)
      (fileHeaderOf width sectionOffset count) := by
  have hzero : 0 < 256 ^ width.bytes := Nat.pow_pos (by decide)
  have hstart :
      (identificationBytes width order ++ List.replicate 8 0 ++ order.encode 2 2).length = 18 := by
    simp [identificationBytes, Format.elfMagic]
  unfold fileHeader
  refine (ReadsAt.seek ((Nat.zero_add _).trans hstart)).bind (Reads.readsAt ?_ _)
  exact (Reads.word (machineOf_lt width)).bind ((Reads.skip_of_length (by simp)).bind
    ((Reads.pointer hzero).bind ((Reads.pointer hzero).bind ((Reads.pointer hoffset).bind
      ((Reads.skip_of_length (by simp)).bind ((Reads.word (by decide)).bind
        ((Reads.skip_of_length (by simp)).bind ((Reads.word hcount).bind
          ((Reads.word (by decide)).bind_nil (.pure _))))))))))

theorem sectionHeader_reads {header : SectionHeader} (h : header.IsWritable width) :
    Reads order width.bytes sectionHeader (header.bytes width order) header := by
  unfold sectionHeader
  exact (Reads.word h.name).bind ((Reads.word h.type).bind ((Reads.pointer h.flags).bind
    ((Reads.pointer h.address).bind ((Reads.pointer h.offset).bind ((Reads.pointer h.size).bind
      ((Reads.word h.link).bind ((Reads.skip_of_length (by simp)).bind
        ((Reads.skipPointers (by simp)).bind
          ((Reads.pointer h.entrySize).bind_nil (.pure header))))))))))

theorem symbolEntry_reads {symbol : Nat × Nat} (hname : symbol.1 < 256 ^ 4)
    (hvalue : symbol.2 < 256 ^ width.bytes) :
    Reads order width.bytes (symbolEntry width) (symbolBytes width order symbol) symbol := by
  unfold symbolEntry
  cases width with
  | four =>
      exact (Reads.word hname).bind ((Reads.pointer hvalue).bind
        ((Reads.skip_of_length (by simp)).bind_nil (.pure symbol)))
  | eight =>
      exact (Reads.word hname).bind ((Reads.skip_of_length (by simp)).bind
        ((Reads.pointer hvalue).bind
          ((Reads.skip_of_length (by simp)).bind_nil (.pure symbol))))

/-- All section headers, behind bytes that the file header points past. -/
theorem sectionHeaders_readsAt {start : Nat} {between : List UInt8} {first : SectionHeader}
    {rest : List SectionHeader} (hoffset : start + between.length = sectionOffset)
    (hne : sectionOffset ≠ 0) (hcount : count = rest.length + 1)
    (hwritable : ∀ header ∈ first :: rest, header.IsWritable width) :
    ReadsAt order width.bytes start (sectionHeaders (fileHeaderOf width sectionOffset count))
      (between ++ (first :: rest).flatMap (·.bytes width order)) (first :: rest) := by
  have hrest : Reads order width.bytes (times sectionHeader rest.length)
      (rest.flatMap (·.bytes width order)) (rest.map id) :=
    .times fun header h => sectionHeader_reads (hwritable header (List.mem_cons_of_mem first h))
  rw [List.map_id] at hrest
  subst hcount
  unfold sectionHeaders
  rw [if_neg (show (fileHeaderOf width sectionOffset (rest.length + 1)).sectionOffset ≠ 0 from hne)]
  have hall : Reads order width.bytes (do
      let rest' ← times sectionHeader rest.length
      return first :: rest') (rest.flatMap (·.bytes width order)) (first :: rest) :=
    hrest.bind_nil (.pure _)
  exact (ReadsAt.seek hoffset).bind
    (((sectionHeader_reads (hwritable first List.mem_cons_self)).bind hall).readsAt _)

theorem nameTable_readsAt {headers : List SectionHeader} {header : SectionHeader} {index : Nat}
    {names : List String} (hheader : headers[index]? = some header) (hindex : index ≠ 0xffff)
    (haddress : header.address + header.size < wordModulus)
    (hsize : (namesBytes names).length = header.size) :
    ReadsAt order width.bytes header.offset (nameTable headers index) (namesBytes names)
      (namesBytes names).toByteArray := by
  cases headers with
  | nil => cases hheader
  | cons first rest =>
      unfold nameTable
      simp only [if_neg hindex, hheader]
      rw [if_neg (by omega)]
      refine .nil_bind (.seek (Nat.add_zero _)) (Reads.readsAt ?_ _)
      rw [← hsize]
      refine (Reads.take _).bind_nil ?_
      rw [validateUTF8_namesBytes]
      exact .pure _

/-! ## The whole file -/

/-- What a file is to hold: sections with their content, and symbols. -/
structure File where
  width : PointerSize
  order : ByteOrder
  sections : List Section
  symbols : Symbols
  content : List UInt8

/-- The name of the section that the symbols stand in. -/
def symbolTableName : String :=
  ".symtab"

def nameTableHeader (offset size : Nat) : SectionHeader :=
  { name := 0, type := unusedType, flags := 0, address := 0, offset, size, link := 0
    entrySize := 0 }

/-- The header of a section, by the offset of its name. -/
def headerOf (width : PointerSize) (p : Nat × Section) : SectionHeader :=
  let isTable : Bool := p.2.name = symbolTableName
  { name := p.1
    type := if isTable then symbolTableType else 1
    flags := (if p.2.executable then 4 else 0) + if p.2.writable then 1 else 0
    address := p.2.address
    offset := p.2.offset
    size := p.2.size
    link := if isTable then 1 else 0
    entrySize := if isTable then symbolSize width else 0 }

/-- Whether a section can be written into a header. -/
structure IsPlain (width : PointerSize) (s : Section) : Prop where
  name : '\x00' ∉ s.name.toList
  fileSize : s.fileSize = s.size
  initialized : s.initialized = true
  address : s.address < 256 ^ width.bytes
  size : s.size < 256 ^ width.bytes
  offset : s.offset < 256 ^ width.bytes

instance (s : Section) : Decidable (IsPlain width s) :=
  decidable_of_iff ('\x00' ∉ s.name.toList ∧ s.fileSize = s.size ∧ s.initialized = true ∧
      s.address < 256 ^ width.bytes ∧ s.size < 256 ^ width.bytes ∧ s.offset < 256 ^ width.bytes)
    ⟨fun ⟨hname, hfileSize, hinitialized, haddress, hsize, hoffset⟩ =>
      ⟨hname, hfileSize, hinitialized, haddress, hsize, hoffset⟩,
      fun h => ⟨h.name, h.fileSize, h.initialized, h.address, h.size, h.offset⟩⟩

theorem sectionOf_headerOf {p : Nat × Section} {names : ByteArray} (h : IsPlain width p.2)
    (hname : textAt? names p.1 = some p.2.name) : sectionOf names (headerOf width p) = p.2 := by
  obtain ⟨at', name, address, size, offset, fileSize, executable, writable, initialized⟩ := p
  obtain rfl : fileSize = size := h.fileSize
  obtain rfl : initialized = true := h.initialized
  have hflags : ∀ a b : Bool, ((if a then 4 else 0) + if b then 1 else 0 : Nat).testBit 2 = a ∧
      ((if a then 4 else 0) + if b then 1 else 0 : Nat).testBit 0 = b := by decide
  have htype : (if decide (name = symbolTableName) = true then symbolTableType else 1) ≠
      zeroFillType := by
    split <;> decide
  simp only [sectionOf, headerOf, htype, hname, hflags, decide_false, Bool.not_false,
    Bool.false_eq_true, ↓reduceIte, Option.getD_some]

theorem nameTableHeader_writable {offset size : Nat} (hoffset : offset < 256 ^ width.bytes)
    (hsize : size < 256 ^ width.bytes) : (nameTableHeader offset size).IsWritable width := by
  have hpos : 0 < 256 ^ width.bytes := Nat.pow_pos (by decide)
  exact ⟨show 0 < 256 ^ 4 by decide, show unusedType < 256 ^ 4 by decide, hpos, hpos, hoffset,
    hsize, show 0 < 256 ^ 4 by decide, hpos⟩

theorem headerOf_writable {p : Nat × Section} (h : IsPlain width p.2) (hname : p.1 < 256 ^ 4) :
    (headerOf width p).IsWritable width := by
  have hword : 256 ≤ 256 ^ width.bytes := by cases width <;> decide
  have hsymbol : symbolSize width < 256 := by cases width <;> decide
  refine ⟨hname, ?_, ?_, h.address, h.offset, h.size, ?_, ?_⟩
  all_goals
    unfold headerOf
    dsimp only
    split
  · decide
  · decide
  · split <;> omega
  · split <;> omega
  · decide
  · decide
  · omega
  · omega

namespace File

variable (file : File)

def tableNames : List String :=
  if file.symbols.isEmpty then [] else [symbolTableName]

def sectionNames : List String :=
  file.sections.map (·.name) ++ file.tableNames

def headerCount : Nat :=
  2 + file.sections.length + file.tableNames.length

def headersAt : Nat :=
  fileHeaderSize file.width + file.content.length

def namesAt : Nat :=
  file.headersAt + file.headerCount * sectionHeaderSize file.width

def symbolsAt : Nat :=
  file.namesAt + (namesBytes file.sectionNames).length

def symbolNamesAt : Nat :=
  file.symbolsAt + file.symbols.length * symbolSize file.width

/-- The section that the symbols stand in, if there are any. -/
def symbolTable : List Section :=
  file.tableNames.map fun name =>
    { name, address := 0, size := file.symbols.length * symbolSize file.width
      offset := file.symbolsAt, fileSize := file.symbols.length * symbolSize file.width
      executable := false, writable := false, initialized := true }

def symbolNames : List String :=
  file.symbols.map (·.1)

def allSections : List Section :=
  file.sections ++ file.symbolTable

/-- The headers of both tables of names, and those of the sections. -/
def headers : List SectionHeader :=
  nameTableHeader file.namesAt (namesBytes file.sectionNames).length ::
    nameTableHeader file.symbolNamesAt (namesBytes file.symbolNames).length ::
      (withOffsets (·.name) 0 file.allSections).map (headerOf file.width)

def entries : List (Nat × Nat) :=
  (withOffsets (·.1) 0 file.symbols).map fun p => (p.1, p.2.2)

/-- What stands behind the file header, in the order in which it is read. -/
def body : List UInt8 :=
  (file.content ++ file.headers.flatMap (·.bytes file.width file.order)) ++
    (namesBytes file.sectionNames ++
      (file.entries.flatMap (symbolBytes file.width file.order) ++ namesBytes file.symbolNames))

def bytes : List UInt8 :=
  fileHeaderBytes file.width file.order file.headersAt file.headerCount ++ file.body

/-- The image of the sections and symbols. -/
def image : Image :=
  { format := .elf
    sections := file.allSections
    symbols := file.symbols
    entry := 0
    pointerSize := file.width
    order := file.order
    arch := arch (machineOf file.width) file.width file.order
    os := "linux"
    data := ⟨file.bytes.toArray⟩ }

/-- Whether everything fits its field, and can be told from what stands beside it. -/
structure Fits : Prop where
  sections : ∀ s ∈ file.sections, IsPlain file.width s ∧ s.name ≠ symbolTableName
  symbols : ∀ symbol ∈ file.symbols, '\x00' ∉ symbol.1.toList ∧ symbol.1 ≠ "" ∧ symbol.2 ≠ 0 ∧
    symbol.2 < 256 ^ file.width.bytes
  headerCount : file.headerCount < 256 ^ 2
  size : file.bytes.length < 256 ^ 4

variable {file}

instance : Decidable file.Fits :=
  decidable_of_iff ((∀ s ∈ file.sections, IsPlain file.width s ∧ s.name ≠ symbolTableName) ∧
      (∀ symbol ∈ file.symbols, '\x00' ∉ symbol.1.toList ∧ symbol.1 ≠ "" ∧ symbol.2 ≠ 0 ∧
        symbol.2 < 256 ^ file.width.bytes) ∧
      file.headerCount < 256 ^ 2 ∧ file.bytes.length < 256 ^ 4)
    ⟨fun ⟨hsections, hsymbols, hcount, hsize⟩ => ⟨hsections, hsymbols, hcount, hsize⟩,
      fun h => ⟨h.sections, h.symbols, h.headerCount, h.size⟩⟩

theorem map_name_symbolTable : file.symbolTable.map (·.name) = file.tableNames := by
  rw [symbolTable, List.map_map]
  exact List.map_id _

theorem map_name_allSections : file.allSections.map (·.name) = file.sectionNames := by
  rw [allSections, List.map_append, map_name_symbolTable, sectionNames]

theorem length_headers : file.headers.length = file.headerCount := by
  have hall : (withOffsets (·.name) 0 file.allSections).length = file.allSections.length := by
    rw [← congrArg List.length (map_snd_withOffsets 0 file.allSections), List.length_map]
  rw [headers, List.length_cons, List.length_cons, List.length_map, hall, allSections,
    List.length_append, symbolTable, List.length_map, headerCount]
  omega

theorem length_entries : file.entries.length = file.symbols.length := by
  rw [entries, List.length_map,
    ← congrArg List.length (map_snd_withOffsets 0 file.symbols), List.length_map]

theorem length_bytes : file.bytes.length = file.symbolNamesAt +
    (namesBytes file.symbolNames).length := by
  simp only [bytes, body, List.length_append, length_fileHeaderBytes,
    length_flatMap_of_forall SectionHeader.length_bytes, length_headers,
    length_flatMap_of_forall length_symbolBytes, length_entries, symbolNamesAt, symbolsAt, namesAt,
    headersAt]
  omega

section Fits

variable (h : file.Fits)

include h

theorem Fits.places_lt : file.headersAt < 256 ^ 4 ∧ file.namesAt < 256 ^ 4 ∧
    file.symbolsAt < 256 ^ 4 ∧ file.symbolNamesAt < 256 ^ 4 ∧
    (namesBytes file.sectionNames).length < 256 ^ 4 ∧
    (namesBytes file.symbolNames).length < 256 ^ 4 ∧
    file.symbols.length * symbolSize file.width < 256 ^ 4 := by
  have hsize := h.size
  simp only [length_bytes, symbolNamesAt, symbolsAt, namesAt] at hsize ⊢
  omega

theorem Fits.isPlain : ∀ s ∈ file.allSections, IsPlain file.width s := by
  intro s hs
  rcases List.mem_append.1 hs with hs | hs
  · exact (h.sections s hs).1
  · obtain ⟨name, hname, rfl⟩ := List.mem_map.1 hs
    have hword := file.width.word_le
    obtain ⟨-, -, hat, -, -, -, hsize⟩ := h.places_lt
    rw [tableNames] at hname
    split at hname
    · cases hname
    · obtain rfl := List.mem_singleton.1 hname
      exact ⟨show '\x00' ∉ symbolTableName.toList by decide, rfl, rfl, Nat.pow_pos (by decide),
        Nat.lt_of_lt_of_le hsize hword, Nat.lt_of_lt_of_le hat hword⟩

/-- The name of each section is read at its offset, which fits. -/
theorem Fits.textAt?_eq {p : Nat × Section} (hp : p ∈ withOffsets (·.name) 0 file.allSections) :
    textAt? (namesBytes file.sectionNames).toByteArray p.1 = some p.2.name ∧ p.1 < 256 ^ 4 := by
  have hmem := mem_of_mem_withOffsets hp
  have hstands : StandsAt (namesBytes (file.allSections.map (·.name)))
      (namesBytes file.sectionNames).toByteArray 0 := by
    rw [map_name_allSections]
    exact standsAt_toByteArray _
  have hname := standsAt_of_mem_withOffsets hstands hp
  have hle := hname.le_size
  obtain ⟨-, -, -, -, hsize, -⟩ := h.places_lt
  rw [List.size_toByteArray] at hle
  exact ⟨textAt?_of_standsAt (h.isPlain _ hmem).name hname, by omega⟩

theorem Fits.headers_writable : ∀ header ∈ file.headers, header.IsWritable file.width := by
  have hword := file.width.word_le
  obtain ⟨-, hnamesAt, -, hsymbolNamesAt, hnames, hsymbolNames, -⟩ := h.places_lt
  intro header hheader
  rcases List.mem_cons.1 hheader with rfl | hheader
  · exact nameTableHeader_writable (Nat.lt_of_lt_of_le hnamesAt hword)
      (Nat.lt_of_lt_of_le hnames hword)
  rcases List.mem_cons.1 hheader with rfl | hheader
  · exact nameTableHeader_writable (Nat.lt_of_lt_of_le hsymbolNamesAt hword)
      (Nat.lt_of_lt_of_le hsymbolNames hword)
  obtain ⟨p, hp, rfl⟩ := List.mem_map.1 hheader
  have hmem := mem_of_mem_withOffsets hp
  exact headerOf_writable (h.isPlain _ hmem) (h.textAt?_eq hp).2

/-- All but the two tables of names are used, and give the sections. -/
theorem Fits.sections_eq :
    (file.headers.filter (·.type ≠ unusedType)).map
        (sectionOf (namesBytes file.sectionNames).toByteArray) = file.allSections := by
  have hused : ∀ header ∈ (withOffsets (·.name) 0 file.allSections).map (headerOf file.width),
      decide (header.type ≠ unusedType) = true := by
    intro header hheader
    obtain ⟨p, -, rfl⟩ := List.mem_map.1 hheader
    unfold headerOf
    dsimp only
    split <;> decide
  have hfilter : file.headers.filter (·.type ≠ unusedType) =
      (withOffsets (·.name) 0 file.allSections).map (headerOf file.width) :=
    List.filter_eq_self.2 hused
  rw [hfilter, List.map_map]
  refine (List.map_congr_left fun p hp => ?_).trans (map_snd_withOffsets 0 file.allSections)
  have hmem := mem_of_mem_withOffsets hp
  exact sectionOf_headerOf (h.isPlain _ hmem) (h.textAt?_eq hp).1

/-- Only the section that the symbols stand in has the type of such. -/
theorem Fits.exists_of_type {header : SectionHeader} (hheader : header ∈ file.headers)
    (htype : header.type = symbolTableType) :
    ∃ p : Nat × Section, p.2 ∈ file.symbolTable ∧ header = headerOf file.width p := by
  rcases List.mem_cons.1 hheader with rfl | hheader
  · cases htype
  rcases List.mem_cons.1 hheader with rfl | hheader
  · cases htype
  obtain ⟨p, hp, rfl⟩ := List.mem_map.1 hheader
  have hmem := mem_of_mem_withOffsets hp
  refine ⟨p, (List.mem_append.1 hmem).resolve_left fun hplain => ?_, rfl⟩
  have hname := (h.sections _ hplain).2
  simp [headerOf, hname, symbolTableType] at htype

theorem Fits.find?_symbolHeader (hne : file.symbols ≠ []) :
    ∃ header, file.headers.reverse.find? (·.type = symbolTableType) = some header ∧
      header.offset = file.symbolsAt ∧
      header.size = file.symbols.length * symbolSize file.width ∧ header.link = 1 ∧
      header.entrySize = symbolSize file.width := by
  have hnames : file.tableNames = [symbolTableName] := by
    rw [tableNames, if_neg (by simpa using hne)]
  cases hfind : file.headers.reverse.find? (·.type = symbolTableType) with
  | some header =>
      have htype : header.type = symbolTableType := by simpa using List.find?_some hfind
      have hmem := List.mem_reverse.1 (List.mem_of_find?_eq_some hfind)
      obtain ⟨p, hp, rfl⟩ := h.exists_of_type hmem htype
      rw [symbolTable, hnames, List.map_singleton, List.mem_singleton] at hp
      refine ⟨_, rfl, ?_⟩
      simp [headerOf, hp]
  | none =>
      -- There is a section for the symbols, and so a header of the type.
      have hsection : ∃ s ∈ file.allSections, s.name = symbolTableName := by
        rw [allSections, symbolTable, hnames]
        exact ⟨_, List.mem_append_right _ (List.mem_singleton_self _), rfl⟩
      obtain ⟨s, hs, hname⟩ := hsection
      rw [← map_snd_withOffsets 0 file.allSections, List.mem_map] at hs
      obtain ⟨p, hp, rfl⟩ := hs
      have hmem : headerOf file.width p ∈ file.headers.reverse :=
        List.mem_reverse.2 (List.mem_cons_of_mem _ (List.mem_cons_of_mem _
          (List.mem_map_of_mem hp)))
      exact absurd (by simp [headerOf, hname]) (List.find?_eq_none.1 hfind _ hmem)

/-- The names and values of the symbols are read together again. -/
theorem Fits.filterMap_entries :
    (file.entries.filterMap fun entry =>
      match textAt? (namesBytes file.symbolNames).toByteArray entry.1 with
      | some name => if entry.2 = 0 ∨ name = "" then none else some (name, entry.2)
      | none => none) = file.symbols := by
  rw [entries, List.filterMap_map]
  refine (List.filterMap_congr fun p hp => ?_).trans
    ((congrFun List.filterMap_eq_map' _).trans (map_snd_withOffsets 0 file.symbols))
  obtain ⟨hzero, hne, hvalue, -⟩ := h.symbols _ (mem_of_mem_withOffsets hp)
  have hname := textAt?_of_standsAt hzero
    (standsAt_of_mem_withOffsets (standsAt_toByteArray _) hp)
  change (match textAt? (namesBytes file.symbolNames).toByteArray p.1 with
    | some name => if p.2.2 = 0 ∨ name = "" then none else some (name, p.2.2)
    | none => none) = some p.2
  rw [symbolNames, hname]
  simp [hne, hvalue]

theorem Fits.entries_fit : ∀ entry ∈ file.entries,
    entry.1 < 256 ^ 4 ∧ entry.2 < 256 ^ file.width.bytes := by
  intro entry hentry
  obtain ⟨p, hp, rfl⟩ := List.mem_map.1 hentry
  obtain ⟨-, -, -, hvalue⟩ := h.symbols _ (mem_of_mem_withOffsets hp)
  have hle := (standsAt_of_mem_withOffsets (standsAt_toByteArray _) hp).le_size
  obtain ⟨-, -, -, -, -, hsize, -⟩ := h.places_lt
  rw [List.size_toByteArray] at hle
  rw [symbolNames] at hsize
  exact ⟨by omega, hvalue⟩

theorem Fits.symbols_readsAt :
    ReadsAt file.order file.width.bytes file.symbolsAt (Elf.symbols file.width file.headers)
      (file.entries.flatMap (symbolBytes file.width file.order) ++ namesBytes file.symbolNames)
      file.symbols := by
  unfold Elf.symbols
  by_cases hne : file.symbols = []
  · have hnone : file.headers.reverse.find? (·.type = symbolTableType) = none := by
      refine List.find?_eq_none.2 fun header hheader htype => ?_
      obtain ⟨p, hp, -⟩ := h.exists_of_type (List.mem_reverse.1 hheader) (by simpa using htype)
      simp [symbolTable, tableNames, hne] at hp
    rw [hnone]
    simp only [entries, symbolNames, hne]
    exact (Reads.pure []).readsAt _
  · obtain ⟨header, hheader, hoffset, hsize, hlink, hentrySize⟩ := h.find?_symbolHeader hne
    have hpos : symbolSize file.width ≠ 0 := by cases file.width <;> decide
    have hcount : header.size / header.entrySize = file.entries.length := by
      rw [hsize, hentrySize, length_entries]
      exact Nat.mul_div_cancel _ (Nat.pos_of_ne_zero hpos)
    have hcount_ne : file.entries.length ≠ 0 := by
      rw [length_entries]
      exact fun hzero => hne (List.length_eq_zero_iff.1 hzero)
    have hentries : Reads file.order file.width.bytes
        (times (symbolEntry file.width) file.entries.length)
        (file.entries.flatMap (symbolBytes file.width file.order)) (file.entries.map id) :=
      .times fun entry hentry =>
        symbolEntry_reads (h.entries_fit entry hentry).1 (h.entries_fit entry hentry).2
    have hnames : ReadsAt file.order file.width.bytes file.symbolNamesAt
        (nameTable file.headers 1) (namesBytes file.symbolNames)
        (namesBytes file.symbolNames).toByteArray := by
      obtain ⟨-, -, -, -, -, hlength, -⟩ := h.places_lt
      have hfits : 0 + (namesBytes file.symbolNames).length < wordModulus := by
        rw [Nat.zero_add]
        exact Nat.lt_trans hlength (by decide)
      have hget : file.headers[1]? =
          some (nameTableHeader file.symbolNamesAt (namesBytes file.symbolNames).length) := rfl
      exact nameTable_readsAt hget (by decide) hfits rfl
    have hplace : file.symbolNamesAt = file.symbolsAt +
        (file.entries.flatMap (symbolBytes file.width file.order)).length := by
      rw [length_flatMap_of_forall length_symbolBytes, length_entries]
      rfl
    rw [List.map_id] at hentries
    simp only [hheader, hlink, hoffset, hentrySize, hpos, ↓reduceIte]
    rw [← hentrySize, hcount, if_neg hcount_ne]
    refine .nil_bind (.seek (Nat.add_zero _)) ((hentries.readsAt _).bind ?_)
    exact (hnames.of_eq hplace).bind_nil (.pure_of_eq h.filterMap_entries)

theorem Fits.headersIn_readsAt :
    ReadsAt file.order file.width.bytes 0 (headersIn file.width file.order 0) file.bytes
      file.image.toHeaders := by
  have hword := file.width.word_le
  obtain ⟨hheadersAt, -, -, -, hlength, -⟩ := h.places_lt
  have hheadersAt_ne : file.headersAt ≠ 0 := by
    rw [headersAt, fileHeaderSize]
    omega
  have hget : file.headers[0]? =
      some (nameTableHeader file.namesAt (namesBytes file.sectionNames).length) := rfl
  have hfits : 0 + (namesBytes file.sectionNames).length < wordModulus := by
    rw [Nat.zero_add]
    exact Nat.lt_trans hlength (by decide)
  have hplace : fileHeaderSize file.width =
      0 + (fileHeaderBytes file.width file.order file.headersAt file.headerCount).length := by
    rw [length_fileHeaderBytes, Nat.zero_add]
  have hnamesAt : file.namesAt =
      0 + (fileHeaderBytes file.width file.order file.headersAt file.headerCount).length +
        (file.content ++ file.headers.flatMap (·.bytes file.width file.order)).length := by
    rw [← hplace, List.length_append, length_flatMap_of_forall SectionHeader.length_bytes,
      length_headers, ← Nat.add_assoc]
    rfl
  have hsymbolsAt : file.symbolsAt = _ + (namesBytes file.sectionNames).length :=
    congrArg (· + (namesBytes file.sectionNames).length) hnamesAt
  have hfile : ReadsAt file.order file.width.bytes 0 fileHeader _ _ :=
    fileHeader_readsAt (Nat.lt_of_lt_of_le hheadersAt hword) h.headerCount
  have hheaders : ReadsAt file.order file.width.bytes (fileHeaderSize file.width) _ _ _ :=
    sectionHeaders_readsAt rfl hheadersAt_ne length_headers.symm h.headers_writable
  have hnames : ReadsAt file.order file.width.bytes file.namesAt (nameTable file.headers 0) _ _ :=
    nameTable_readsAt hget (by decide) hfits rfl
  -- A file without any section would be read by its segments, of which there are none either.
  have hsections : (if (file.headers.filter (·.type ≠ unusedType)).isEmpty then
      (([] : List ProgramHeader).filter (·.type = loadType)).mapIdx fun i segment =>
        sectionOfSegment segment i
      else (file.headers.filter (·.type ≠ unusedType)).map
        (sectionOf (namesBytes file.sectionNames).toByteArray)) = file.allSections := by
    split
    · rename_i hempty
      rw [← h.sections_eq, List.isEmpty_iff.1 hempty]
      rfl
    · exact h.sections_eq
  unfold headersIn
  refine hfile.bind (.nil_bind ((Reads.pure []).readsAt _) ((hheaders.of_eq hplace).bind ?_))
  exact (hnames.of_eq hnamesAt).bind ((h.symbols_readsAt.of_eq hsymbolsAt).bind_nil
    (.pure_of_eq (congrArg (fun sections => { file.image.toHeaders with sections }) hsections)))

theorem Fits.headers_of_standsAt {data : ByteArray} (hstands : StandsAt file.bytes data 0) :
    data.size ≠ 0 ∧ Headers.ofBytes data = .ok file.image.toHeaders := by
  have hidentification : StandsAt (identificationBytes file.width file.order) data 0 :=
    (standsAt_append.1 (standsAt_append.1 (standsAt_append.1 (standsAt_append.1 hstands).1).1).1).1
  have hmagic : hasBytes data 0 Format.elfMagic = true :=
    (hasBytes_iff (by decide)).2 (standsAt_append.1 hidentification).1
  have hread : Elf.headers data = .ok file.image.toHeaders := by
    unfold Elf.headers
    rw [identification_readsAt.on rfl rfl rfl hidentification]
    exact h.headersIn_readsAt.on rfl rfl rfl hstands
  constructor
  · have hle := hidentification.le_size
    have hpos : 0 < (identificationBytes file.width file.order).length := by
      simp [identificationBytes]
    omega
  · unfold Headers.ofBytes Format.ofBytes
    rw [if_pos hmagic]
    change (Elf.headers data).mapError _ = _
    rw [hread]
    rfl

/-- A file that fits is loaded to the image of its sections and symbols, whatever the sections
hold. -/
theorem Fits.ofBytes_image : Image.ofBytes file.image.data = .ok file.image := by
  obtain ⟨hsize, hheaders⟩ := h.headers_of_standsAt (standsAt_toArray file.bytes)
  exact Image.ofBytes_eq_ok rfl hsize hheaders

end Fits

/-- What the sections hold stands behind the file header. -/
theorem standsAt_content : StandsAt file.content file.image.data (fileHeaderSize file.width) := by
  obtain ⟨-, hbody⟩ := standsAt_append.1 (standsAt_toArray file.bytes)
  have hcontent := (standsAt_append.1 (standsAt_append.1 hbody).1).1
  rwa [length_fileHeaderBytes, Nat.zero_add] at hcontent

end File

end Elf

/-! ## Files of one section -/

namespace Image

/-- A section that holds all of the content. -/
def wholeSection (width : PointerSize) (name : String) (address size : Nat) : Section :=
  { name, address, size, offset := Elf.fileHeaderSize width, fileSize := size
    executable := false, writable := false, initialized := true }

/-- The image of a file of one section. -/
def ofSection (width : PointerSize) (order : ByteOrder) (name : String) (address : Nat)
    (bytes : List UInt8) : Image :=
  Elf.File.image
    { width, order, sections := [wholeSection width name address bytes.length], symbols := []
      content := bytes }

variable {width : PointerSize} {order : ByteOrder} {name : String} {address va : Nat}
variable {bytes part : List UInt8}

theorem ofBytes_ofSection (hname : '\x00' ∉ name.toList) (hne : name ≠ Elf.symbolTableName)
    (haddress : address < 256 ^ width.bytes)
    (hsize : bytes.length + name.utf8ByteSize + 0x200 < 256 ^ 4) :
    Image.ofBytes (ofSection width order name address bytes).data =
      .ok (ofSection width order name address bytes) := by
  have hword := width.word_le
  have hoffset : Elf.fileHeaderSize width < 256 ^ width.bytes := by cases width <;> decide
  have hplain : Elf.IsPlain width (wholeSection width name address bytes.length) :=
    ⟨hname, rfl, rfl, haddress, show bytes.length < _ by omega, hoffset⟩
  have hnames : (namesBytes [name]).length = name.utf8ByteSize + 1 := by
    simp [namesBytes, length_textBytes]
  refine Elf.File.Fits.ofBytes_image ⟨List.forall_mem_singleton.2 ⟨hplain, hne⟩, nofun, ?_, ?_⟩
  · exact show 3 < 256 ^ 2 by decide
  · rw [Elf.File.length_bytes]
    change Elf.fileHeaderSize width + bytes.length + 3 * Elf.sectionHeaderSize width +
      (namesBytes [name]).length + 0 * Elf.symbolSize width + 0 < _
    have hheaders : Elf.fileHeaderSize width + 3 * Elf.sectionHeaderSize width < 0x1ff := by
      cases width <;> decide
    omega

theorem sections_ofSection : (ofSection width order name address bytes).sections =
    [wholeSection width name address bytes.length] :=
  rfl

theorem apart_ofSection : (ofSection width order name address bytes).Apart :=
  List.pairwise_singleton _ _

theorem isFileBacked_wholeSection (hne : bytes ≠ []) :
    (wholeSection width name address bytes.length).isFileBacked = true := by
  simp [Section.isFileBacked, wholeSection, List.length_pos_iff.2 hne]

theorem content_ofSection (hne : bytes ≠ []) :
    (ofSection width order name address bytes).content
      (wholeSection width name address bytes.length) = .ok ⟨bytes.toArray⟩ := by
  rw [content_of_standsAt (isFileBacked_wholeSection hne) rfl Elf.File.standsAt_content]
  exact congrArg Except.ok (ByteArray.ext List.data_toByteArray)

theorem holds_wholeSection {size : Nat} : (wholeSection width name address size).holds va = true ↔
    address ≤ va ∧ va < address + size :=
  Section.holds_iff

theorem bytesFrom_ofSection (hva : address ≤ va) (hlt : va < address + bytes.length) :
    (ofSection width order name address bytes).bytesFrom va =
      .ok ⟨(bytes.drop (va - address)).toArray⟩ := by
  have hne : bytes ≠ [] := List.ne_nil_of_length_pos (by omega)
  have hfirst : (ofSection width order name address bytes).sectionHolding? va =
      some (wholeSection width name address bytes.length) :=
    List.find?_cons_of_pos (holds_wholeSection.2 ⟨hva, hlt⟩)
  have hplace : va - (wholeSection width name address bytes.length).address = va - address := rfl
  have hsize : (ByteArray.mk bytes.toArray).size = bytes.length := rfl
  rw [bytesFrom_eq hfirst (content_ofSection hne) (by omega), hplace, hsize]
  have hall : (bytes.drop (va - address)).take (bytes.length - (va - address)) =
      bytes.drop (va - address) :=
    List.take_of_length_le (Nat.le_of_eq List.length_drop)
  refine congrArg Except.ok (ByteArray.ext (Array.ext' ?_))
  simp [hall]

theorem bytesFrom_ofSection_outside (h : va < address ∨ address + bytes.length ≤ va) :
    (ofSection width order name address bytes).bytesFrom va = .error .outOfBounds := by
  have hnone : (ofSection width order name address bytes).sectionHolding? va = none :=
    List.find?_cons_of_neg fun hholds => by
      have hholds := holds_wholeSection.1 hholds
      omega
  unfold bytesFrom
  rw [hnone]

/-- What stands among the bytes is written. -/
theorem written_ofSection (hne : part ≠ []) (hva : address ≤ va)
    (h : StandsAt part ⟨bytes.toArray⟩ (va - address)) :
    (ofSection width order name address bytes).Written part va := by
  have hbytes : bytes ≠ [] := by
    rintro rfl
    have hle := h.le_size
    have hpos := List.length_pos_iff.2 hne
    have hsize : (ByteArray.mk #[]).size = 0 := rfl
    omega
  have hs : wholeSection width name address bytes.length ∈
      (ofSection width order name address bytes).fileBackedSections :=
    mem_fileBackedSections.2 ⟨List.mem_singleton_self _, isFileBacked_wholeSection hbytes⟩
  exact ⟨_, hs, _, content_ofSection hbytes, hva, h⟩

end Image

end GoImage
