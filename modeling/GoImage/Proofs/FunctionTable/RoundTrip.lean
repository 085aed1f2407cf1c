import GoImage.FunctionTable.Functions
import GoImage.Proofs.Bytes.Text
import GoImage.Proofs.Image.Named
import Mathlib.Data.List.Chain

/-! # Function tables that are written and read

A table of any layout gives back the functions that it was written for. The layouts differ in the
words of the header, in the width of the numbers in entries and records, and in what addresses,
records and names are relative to; what they are written for is the same. -/

namespace GoImage

namespace FunctionTable

open Decoder

/-! ## The header -/

namespace Header

/-- The words behind the first eight bytes. -/
def words (header : Header) : List Nat :=
  match header.layout with
  | .go1_2 => [header.functionCount]
  | .go1_16 =>
    [header.functionCount, header.fileCount, header.namesOffset, header.unitsOffset,
      header.filesOffset, header.pcOffset, header.entriesOffset]
  | .go1_18 | .go1_20 =>
    [header.functionCount, header.fileCount, header.textStart, header.namesOffset,
      header.unitsOffset, header.filesOffset, header.pcOffset, header.entriesOffset]

/-- A header as it is written: the magic number, two zero bytes, the smallest step between
instructions, the width of a pointer, and the words. -/
def bytes (order : ByteOrder) (header : Header) : List UInt8 :=
  order.encode 4 header.layout.magic ++
    ([0, 0, UInt8.ofNat header.quantum, UInt8.ofNat header.pointerSize.bytes] ++
      header.words.flatMap (order.encode header.pointerSize.bytes))

/-- Whether a header can be written: its numbers fit, and what its layout has no word for is as the
layout has it. -/
structure IsWritable (header : Header) : Prop where
  quantum_lt : header.quantum < 256
  words_lt : ∀ n ∈ header.words, n < 256 ^ header.pointerSize.bytes
  go1_2 : header.layout = .go1_2 → header =
    { layout := .go1_2, va := header.va, quantum := header.quantum
      pointerSize := header.pointerSize, functionCount := header.functionCount
      entriesOffset := 8 + header.pointerSize.bytes }
  go1_16 : header.layout = .go1_16 → header.textStart = 0

variable {header : Header} {order : ByteOrder} {data : ByteArray}

theorem length_bytes_pos (order : ByteOrder) (header : Header) :
    0 < (header.bytes order).length := by
  rw [bytes, List.length_append, ByteOrder.length_encode]
  exact Nat.lt_add_right _ (by decide)

/-- The words give back the header. -/
theorem headerWords_on (h : header.IsWritable)
    (hstands : StandsAt (header.words.flatMap (order.encode header.pointerSize.bytes)) data 8) :
    (headerWords header.layout header.va header.quantum header.pointerSize).on
      { data, order, pointerSize := header.pointerSize.bytes } = .ok header := by
  have hword : ∀ n ∈ header.words, Reads order header.pointerSize.bytes pointer
      (order.encode header.pointerSize.bytes n) n := fun n hn => .pointer (h.words_lt n hn)
  unfold headerWords
  refine Reads.seek_on (?_ : Reads order header.pointerSize.bytes _ _ header) rfl rfl hstands
  rcases header with ⟨layout, va, quantum, pointerSize, functionCount, fileCount, textStart,
    namesOffset, unitsOffset, filesOffset, pcOffset, entriesOffset⟩
  cases layout with
  | go1_2 =>
      simp only [words, List.flatMap_cons, List.flatMap_nil, List.forall_mem_cons] at hword ⊢
      obtain ⟨hcount, -⟩ := hword
      rw [h.go1_2 rfl]
      exact hcount.bind (.pure _)
  | go1_16 =>
      obtain rfl : textStart = 0 := h.go1_16 rfl
      simp only [words, List.flatMap_cons, List.flatMap_nil, List.forall_mem_cons] at hword ⊢
      obtain ⟨hcount, hfiles, hnames, hunits, hfileNames, hpc, hentries, -⟩ := hword
      exact hcount.bind <| hfiles.bind <| hnames.bind <| hunits.bind <| hfileNames.bind <|
        hpc.bind <| hentries.bind (.pure _)
  | go1_18 | go1_20 =>
      simp only [words, List.flatMap_cons, List.flatMap_nil, List.forall_mem_cons] at hword ⊢
      obtain ⟨hcount, hfiles, htext, hnames, hunits, hfileNames, hpc, hentries, -⟩ := hword
      exact hcount.bind <| hfiles.bind <| htext.bind <| hnames.bind <| hunits.bind <|
        hfileNames.bind <| hpc.bind <| hentries.bind (.pure _)

end Header

variable {header : Header} {order : ByteOrder} {data : ByteArray}

/-- A header that is written is read back. -/
theorem readHeader_of_standsAt (h : header.IsWritable)
    (hstands : StandsAt (header.bytes order) data 0) :
    readHeader order data header.va header.layout = .ok header := by
  obtain ⟨-, hstands⟩ := standsAt_append.1 hstands
  obtain ⟨hfixed, hwords⟩ := standsAt_append.1 hstands
  rw [ByteOrder.length_encode] at hfixed hwords
  have hquantum : data[6]? = some (UInt8.ofNat header.quantum) := hfixed.tail.tail.getElem?_eq
  have hsize : data[7]? = some (UInt8.ofNat header.pointerSize.bytes) :=
    hfixed.tail.tail.tail.getElem?_eq
  have hquantum_lt := h.quantum_lt
  have hquantum_eq : (UInt8.ofNat header.quantum).toNat = header.quantum := by
    simp
    omega
  have hsize_eq : (UInt8.ofNat header.pointerSize.bytes).toNat = header.pointerSize.bytes := by
    cases header.pointerSize <;> rfl
  unfold readHeader
  rw [hquantum, hsize]
  dsimp only
  rw [hsize_eq, PointerSize.ofBytes?_bytes, hquantum_eq]
  exact Header.headerWords_on h hwords

/-! ## Entries, records and names -/

/-- How wide the numbers in entries and records are, and what they are relative to. -/
structure Form where
  width : Nat
  /-- Where the first record could be. -/
  records : Nat
  /-- Where the first name could be. -/
  names : Nat
  /-- Whether functions are found from the start of the code. -/
  isRelative : Bool

def Header.form (header : Header) : Form :=
  match header.layout with
  | .go1_2 => ⟨header.pointerSize.bytes, 0, 0, false⟩
  | .go1_16 => ⟨header.pointerSize.bytes, header.entriesOffset, header.namesOffset, false⟩
  | .go1_18 | .go1_20 => ⟨4, header.entriesOffset, header.namesOffset, true⟩

/-- Where the code starts: as the header says or, if it says nothing, as is known from outside. -/
def Header.codeStart (header : Header) (fallback : Nat) : Nat :=
  if header.textStart = 0 then fallback else header.textStart

/-- The address that a number in an entry stands for. -/
def Form.address (form : Form) (codeStart start : Nat) : Nat :=
  if form.isRelative then wrap (codeStart + start) else start

/-- A function of a table, with the numbers that are written for it. -/
structure Entry where
  function : Function
  /-- Its address, or how far behind the start of the code it starts. -/
  start : Nat
  /-- How far behind the first record its record is. -/
  record : Nat
  /-- How far behind the first name its name is. -/
  name : Nat

/-- The two numbers of an entry as they are written. -/
def entryBytes (order : ByteOrder) (form : Form) (numbers : Nat × Nat) : List UInt8 :=
  order.encode form.width numbers.1 ++ order.encode form.width numbers.2

/-- Whether a table has an entry's record, with the offset of the name behind its first number, and
the name, with a zero byte behind it. -/
structure Entry.IsWritten (order : ByteOrder) (data : ByteArray) (form : Form) (codeStart : Nat)
    (e : Entry) : Prop where
  address : form.address codeStart e.start = e.function.start
  start_lt : e.start < 256 ^ form.width
  record_lt : e.record < 256 ^ form.width
  name_lt : e.name < 0x80000000
  record : StandsAt (order.encode 4 e.name) data (form.records + e.record + form.width)
  name : StandsAt (textBytes e.function.name ++ [0]) data (form.names + e.name)
  noNul : '\x00' ∉ e.function.name.toList

theorem reads_entry (order : ByteOrder) (codeStart : Nat) {numbers : Nat × Nat}
    (hstart : numbers.1 < 256 ^ header.form.width) (hrecord : numbers.2 < 256 ^ header.form.width) :
    Reads order header.pointerSize.bytes (entry header.layout codeStart)
      (entryBytes order header.form numbers)
      (header.form.address codeStart numbers.1, numbers.2) := by
  unfold entry entryBytes Form.address
  unfold Header.form at hstart hrecord ⊢
  cases hlayout : header.layout with
  | go1_2 | go1_16 =>
      rw [hlayout] at hstart hrecord
      exact (Reads.pointer hstart).bind ((Reads.pointer hrecord).bind_nil (.pure _))
  | go1_18 | go1_20 =>
      rw [hlayout] at hstart hrecord
      exact (Reads.word hstart).bind ((Reads.word hrecord).bind_nil (.pure _))

variable {table : FunctionTable} {codeStart : Nat} {e : Entry}

theorem decodeAt_of_standsAt {α : Type} {decoder : Decoder α} {bytes : List UInt8} {a : α}
    {offset : Nat} (h : Reads table.order table.header.pointerSize.bytes decoder bytes a)
    (hstands : StandsAt bytes table.data offset) : table.decodeAt offset decoder = .ok a :=
  h.seek_on rfl rfl hstands

theorem name_of_isWritten
    (h : e.IsWritten table.order table.data table.header.form codeStart) :
    name table e.record = .ok e.function.name := by
  have hfield : recordBase table.header + e.record +
      table.header.layout.nameFieldOffset table.header.pointerSize.bytes =
        table.header.form.records + e.record + table.header.form.width := by
    unfold recordBase Layout.nameFieldOffset Header.form
    cases table.header.layout <;> rfl
  have hbase : nameBase table.header = table.header.form.names := by
    unfold nameBase Header.form
    cases table.header.layout <;> rfl
  have hname := h.name_lt
  have hrecord := h.record
  rw [← signedWord_natCast hname] at hrecord
  have hoffset : table.decodeAt (recordBase table.header + e.record +
      table.header.layout.nameFieldOffset table.header.pointerSize.bytes) (int .i32) =
        .ok (e.name : Int) :=
    hfield ▸ decodeAt_of_standsAt (.int32 (by omega) (by omega)) hrecord
  have hpositive : ¬ (e.name : Int) < 0 := by omega
  simp only [name, hoffset, hbase, bind, Except.bind, if_neg hpositive, Int.toNat_natCast]
  exact decodeAt_of_standsAt (.text h.noNul) h.name

/-! ## The functions -/

/-- Functions that follow on one another: each ends where the next one starts. -/
structure IsContiguous (functions : List Function) : Prop where
  ne_nil : functions ≠ []
  start_le_stop : ∀ f ∈ functions, f.start ≤ f.stop
  adjacent : functions.IsChain fun f g => f.stop = g.start

theorem functionsOf_cons {start stop record next : Nat} {rest : List (Nat × Nat)} {text : String}
    {functions : List Function} (hle : start ≤ stop) (hname : name table record = .ok text)
    (hrest : functionsOf table ((stop, next) :: rest) = .ok functions) :
    functionsOf table ((start, record) :: (stop, next) :: rest) =
      .ok (⟨start, stop, text⟩ :: functions) := by
  rw [functionsOf, if_neg (by omega), hrest]
  dsimp only
  rw [hname]

/-- The start of each function, and the end of the last one, pair up to the functions. -/
theorem functionsOf_entries {entries : List Entry} {stop last : Nat}
    (hnames : ∀ e' ∈ e :: entries, name table e'.record = .ok e'.function.name)
    (hle : ∀ f ∈ (e :: entries).map (·.function), f.start ≤ f.stop)
    (hadjacent : ((e :: entries).map (·.function)).IsChain fun f g => f.stop = g.start)
    (hstop : ∀ f ∈ ((e :: entries).map (·.function)).getLast?, f.stop = stop) :
    functionsOf table
        ((e :: entries).map (fun e => (e.function.start, e.record)) ++ [(stop, last)]) =
      .ok ((e :: entries).map (·.function)) := by
  induction entries generalizing e with
  | nil =>
      obtain rfl : e.function.stop = stop := hstop _ rfl
      exact functionsOf_cons (hle _ (.head _)) (hnames _ (.head _)) rfl
  | cons e' entries ih =>
      obtain ⟨hnext, hadjacent⟩ := List.isChain_cons_cons.1 hadjacent
      have hrest := ih (fun e he => hnames e (.tail _ he)) (fun f hf => hle f (.tail _ hf))
        hadjacent hstop
      simp only [List.map_cons, List.cons_append, ← hnext] at hrest ⊢
      exact functionsOf_cons (hle _ (.head _)) (hnames _ (.head _)) hrest

/-! ## Whole tables -/

/-- The numbers of all entries, with those that close the last function. -/
def numbersOf (entries : List Entry) (closing : Nat × Nat) : List (Nat × Nat) :=
  entries.map (fun e => (e.start, e.record)) ++ [closing]

/-- Whether data start with a table of entries, written in all its parts. -/
structure IsTable (order : ByteOrder) (data : ByteArray) (header : Header) (codeStart : Nat)
    (entries : List Entry) (closing : Nat × Nat) : Prop where
  writable : header.IsWritable
  count : header.functionCount = entries.length
  headerAt : StandsAt (header.bytes order) data 0
  entriesAt : StandsAt ((numbersOf entries closing).flatMap (entryBytes order header.form)) data
    header.entriesOffset
  written : ∀ e ∈ entries, e.IsWritten order data header.form codeStart
  closing_lt : closing.1 < 256 ^ header.form.width ∧ closing.2 < 256 ^ header.form.width

theorem length_entryBytes (order : ByteOrder) (numbers : Nat × Nat) :
    (entryBytes order header.form numbers).length = header.entrySize := by
  unfold entryBytes Header.entrySize Layout.entrySize Header.form
  rw [List.length_append, ByteOrder.length_encode, ByteOrder.length_encode]
  cases header.layout <;> dsimp only <;> omega

theorem length_flatMap_entryBytes (order : ByteOrder) (numbers : List (Nat × Nat)) :
    (numbers.flatMap (entryBytes order header.form)).length =
      numbers.length * header.entrySize :=
  length_flatMap_of_forall (length_entryBytes order) numbers

namespace IsTable

variable {entries : List Entry} {closing : Nat × Nat}

theorem numbers_lt (h : IsTable order data header codeStart entries closing) :
    ∀ n ∈ numbersOf entries closing,
      n.1 < 256 ^ header.form.width ∧ n.2 < 256 ^ header.form.width := by
  intro n hn
  rcases List.mem_append.1 hn with hn | hn
  · obtain ⟨e, he, rfl⟩ := List.mem_map.1 hn
    exact ⟨(h.written e he).start_lt, (h.written e he).record_lt⟩
  · obtain rfl := List.mem_singleton.1 hn
    exact h.closing_lt

theorem map_numbers (h : IsTable order data header codeStart entries closing) :
    (numbersOf entries closing).map (fun n => (header.form.address codeStart n.1, n.2)) =
      entries.map (fun e => (e.function.start, e.record)) ++
        [(header.form.address codeStart closing.1, closing.2)] := by
  rw [numbersOf, List.map_append, List.map_map]
  congr 1
  exact List.map_congr_left fun e he => Prod.ext (h.written e he).address rfl

theorem reads_entries (h : IsTable order data header codeStart entries closing) :
    Reads order header.pointerSize.bytes
      (times (entry header.layout codeStart) (header.functionCount + 1))
      ((numbersOf entries closing).flatMap (entryBytes order header.form))
      (entries.map (fun e => (e.function.start, e.record)) ++
        [(header.form.address codeStart closing.1, closing.2)]) := by
  have hcount : header.functionCount + 1 = (numbersOf entries closing).length := by
    simp [numbersOf, h.count]
  rw [hcount, ← h.map_numbers]
  exact .times fun n hn => reads_entry order codeStart (h.numbers_lt n hn).1 (h.numbers_lt n hn).2

theorem entriesFit (h : IsTable table.order table.data table.header codeStart entries closing)
    (hne : entries ≠ []) : table.entriesFit = true := by
  have hlength := h.entriesAt.le_size
  have hpos := List.length_pos_iff.2 hne
  rw [length_flatMap_entryBytes, numbersOf, List.length_append, List.length_map,
    List.length_singleton, ← h.count] at hlength
  simp only [FunctionTable.entriesFit, Bool.and_eq_true, decide_eq_true_eq]
  exact ⟨by rw [h.count]; omega, hlength⟩

/-- A table gives the functions that its entries are written for. -/
theorem functions_eq {fallback : Nat}
    (h : IsTable table.order table.data table.header (table.header.codeStart fallback) entries
      closing)
    (hfunctions : IsContiguous (entries.map (·.function)))
    (hstop : ∀ f ∈ (entries.map (·.function)).getLast?,
      f.stop = table.header.form.address (table.header.codeStart fallback) closing.1) :
    table.functions fallback = .ok (entries.map (·.function)) := by
  have hne : entries ≠ [] := fun hnil => hfunctions.ne_nil (by rw [hnil]; rfl)
  have hentries := decodeAt_of_standsAt h.reads_entries h.entriesAt
  unfold Header.codeStart at hentries
  have hnames : ∀ e ∈ entries, name table e.record = .ok e.function.name :=
    fun e he => name_of_isWritten (h.written e he)
  simp only [FunctionTable.functions, h.entriesFit hne, hentries, bind, Except.bind]
  cases entries with
  | nil => exact absurd rfl hne
  | cons e entries =>
      exact functionsOf_entries hnames hfunctions.start_le_stop hfunctions.adjacent hstop

end IsTable

/-! ## Tables in images -/

/-- The functions of a table at an address of an image. -/
def functionsAt (image : Image) (va : Nat) (layout : Layout) (fallback : Nat) :
    Except Error (List Function) := do
  (← read image va layout).functions fallback

/-- Whether a table with a header is written for functions in the section that has its address. -/
def Encodes (image : Image) (header : Header) (fallback : Nat) (functions : List Function) : Prop :=
  ∃ s content entries closing, image.sectionHolding? header.va = some s ∧
    image.content s = .ok content ∧
    IsTable image.order (content.extract (header.va - s.address) content.size) header
      (header.codeStart fallback) entries closing ∧
    entries.map (·.function) = functions ∧
    ∀ f ∈ functions.getLast?,
      f.stop = header.form.address (header.codeStart fallback) closing.1

theorem functionsAt_of_encodes {image : Image} {fallback : Nat} {functions : List Function}
    (hfunctions : IsContiguous functions) (h : Encodes image header fallback functions) :
    functionsAt image header.va header.layout fallback = .ok functions := by
  obtain ⟨s, content, entries, closing, hs, hcontent, htable, rfl, hstop⟩ := h
  have hsize := htable.headerAt.le_size
  have hlength := header.length_bytes_pos image.order
  rw [ByteArray.size_extract] at hsize
  have hbytes := Image.bytesFrom_eq hs hcontent (by omega)
  have hheader := readHeader_of_standsAt htable.writable htable.headerAt
  have hread : read image header.va header.layout = .ok
      { header, order := image.order
        data := content.extract (header.va - s.address) content.size } := by
    simp only [read, hbytes, hheader, bind, Except.bind, pure, Except.pure]
  simp only [functionsAt, hread, bind, Except.bind]
  exact htable.functions_eq hfunctions hstop

/-- Whatever its layout, width of pointers and byte order, and wherever it is in its section, a
table gives back the functions that it is written for. So two tables for the same functions give the
same. -/
theorem functionsAt_eq {functions : List Function} (hfunctions : IsContiguous functions) :
    (∀ image header fallback, Encodes image header fallback functions →
      functionsAt image header.va header.layout fallback = .ok functions) ∧
    ∀ image header fallback image' header' fallback',
      Encodes image header fallback functions → Encodes image' header' fallback' functions →
      functionsAt image header.va header.layout fallback =
        functionsAt image' header'.va header'.layout fallback' := by
  refine ⟨fun image header fallback h => functionsAt_of_encodes hfunctions h,
    fun image header fallback image' header' fallback' h h' => ?_⟩
  rw [functionsAt_of_encodes hfunctions h, functionsAt_of_encodes hfunctions h']

/-! ## One program in two layouts -/

def mainFunctions : List Function :=
  [⟨0x401000, 0x401020, "main.main"⟩, ⟨0x401020, 0x401050, "main.π"⟩]

theorem isContiguous_mainFunctions : IsContiguous mainFunctions where
  ne_nil := by simp [mainFunctions]
  start_le_stop := by simp [mainFunctions]
  adjacent := by simp [mainFunctions]

/-- An image that has the table behind other bytes. -/
def tableImage (pointerSize : PointerSize) (order : ByteOrder) (bytes : List UInt8) : Image :=
  .ofSection pointerSize order ".gopclntab" 0x500000 bytes

theorem encodes_tableImage {entries : List Entry} {closing : Nat × Nat} {fallback : Nat}
    {front bytes : List UInt8} (pointerSize : PointerSize)
    (hva : header.va = 0x500000 + front.length)
    (htable : IsTable order ⟨bytes.toArray⟩ header (header.codeStart fallback) entries closing)
    (hstop : ∀ f ∈ (entries.map (·.function)).getLast?,
      f.stop = header.form.address (header.codeStart fallback) closing.1) :
    Encodes (tableImage pointerSize order (front ++ bytes)) header fallback
      (entries.map (·.function)) := by
  have hpos : 0 < bytes.length := by
    have hheader := htable.headerAt.le_size
    have hlength := header.length_bytes_pos order
    have hbytes : (ByteArray.mk bytes.toArray).size = bytes.length := rfl
    omega
  have hne : front ++ bytes ≠ [] := List.ne_nil_of_length_pos (by simp; omega)
  have hsize : (ByteArray.mk (front ++ bytes).toArray).size = front.length + bytes.length :=
    List.length_append
  have hholds : (Image.wholeSection pointerSize ".gopclntab" 0x500000
      (front ++ bytes).length).holds header.va = true := by
    rw [Image.holds_wholeSection, List.length_append]
    omega
  have hdata : (ByteArray.mk (front ++ bytes).toArray).extract (header.va - 0x500000)
      (ByteArray.mk (front ++ bytes).toArray).size = ⟨bytes.toArray⟩ := by
    rw [hsize, hva, Nat.add_sub_cancel_left]
    ext1
    simp
  rw [← hdata] at htable
  exact ⟨_, _, entries, closing,
    Image.apart_ofSection.sectionHolding?_eq (List.mem_singleton_self _) hholds,
    Image.content_ofSection hne, htable, rfl, hstop⟩

/-- The oldest layout: addresses, and offsets from the start. -/
def narrowBytes : List UInt8 := [
    0xfb, 0xff, 0xff, 0xff, 0, 0, 1, 4, 2, 0, 0, 0, 0, 0x10, 0x40, 0,
    0x24, 0, 0, 0, 0x20, 0x10, 0x40, 0, 0x2c, 0, 0, 0, 0x50, 0x10, 0x40, 0, 0, 0, 0, 0, 0, 0x10,
    0x40, 0, 0x34, 0, 0, 0, 0x20, 0x10, 0x40, 0, 0x3e, 0, 0, 0, 0x6d, 0x61, 0x69, 0x6e, 0x2e,
    0x6d, 0x61, 0x69, 0x6e, 0, 0x6d, 0x61, 0x69, 0x6e, 0x2e, 0xcf, 0x80, 0]

def narrowHeader : Header :=
  { layout := .go1_2, va := 0x500003, quantum := 1, pointerSize := .four, functionCount := 2
    entriesOffset := 12 }

theorem isTable_narrowBytes :
    IsTable .little ⟨narrowBytes.toArray⟩ narrowHeader (narrowHeader.codeStart 0)
      [⟨⟨0x401000, 0x401020, "main.main"⟩, 0x401000, 36, 52⟩,
        ⟨⟨0x401020, 0x401050, "main.π"⟩, 0x401020, 44, 62⟩] (0x401050, 0) where
  writable := ⟨by decide, by decide, fun _ => rfl, nofun⟩
  count := rfl
  headerAt := by decide +kernel
  entriesAt := by decide +kernel
  written := List.forall_mem_cons.2
    ⟨⟨rfl, by decide, by decide, by decide, by decide +kernel, by decide +kernel, by decide⟩,
      List.forall_mem_singleton.2
        ⟨rfl, by decide, by decide, by decide, by decide +kernel, by decide +kernel, by decide⟩⟩
  closing_lt := by decide

/-- The newest layout: offsets from the start of the code, which is not recorded. -/
def wideBytes : List UInt8 := [
    0xff, 0xff, 0xff, 0xf1, 0, 0, 1, 8, 0, 0, 0, 0, 0, 0, 0, 2, 0, 0, 0, 0, 0, 0, 0, 0, 0, 0, 0,
    0, 0, 0, 0, 0, 0, 0, 0, 0, 0, 0, 0, 0x48, 0, 0, 0, 0, 0, 0, 0, 0, 0, 0, 0, 0, 0, 0, 0, 0, 0,
    0, 0, 0, 0, 0, 0, 0, 0, 0, 0, 0, 0, 0, 0, 0x5c, 0x6d, 0x61, 0x69, 0x6e, 0x2e, 0x6d, 0x61,
    0x69, 0x6e, 0, 0x6d, 0x61, 0x69, 0x6e, 0x2e, 0xcf, 0x80, 0, 0, 0, 0, 0, 0, 0, 0, 0, 0, 0x18,
    0, 0, 0, 0x20, 0, 0, 0, 0x20, 0, 0, 0, 0x50, 0, 0, 0, 0, 0, 0, 0, 0, 0, 0, 0, 0, 0, 0, 0,
    0x20, 0, 0, 0, 0xa]

def wideHeader : Header :=
  { layout := .go1_20, va := 0x500000, quantum := 1, pointerSize := .eight, functionCount := 2
    namesOffset := 72, entriesOffset := 92 }

theorem isTable_wideBytes :
    IsTable .big ⟨wideBytes.toArray⟩ wideHeader (wideHeader.codeStart 0x401000)
      [⟨⟨0x401000, 0x401020, "main.main"⟩, 0, 24, 0⟩,
        ⟨⟨0x401020, 0x401050, "main.π"⟩, 0x20, 32, 10⟩] (0x50, 0) where
  writable := ⟨by decide, by decide +kernel, nofun, nofun⟩
  count := rfl
  headerAt := by decide +kernel
  entriesAt := by decide +kernel
  written := List.forall_mem_cons.2
    ⟨⟨by decide +kernel, by decide, by decide, by decide, by decide +kernel, by decide +kernel,
        by decide⟩,
      List.forall_mem_singleton.2
        ⟨by decide +kernel, by decide, by decide, by decide, by decide +kernel, by decide +kernel,
          by decide⟩⟩
  closing_lt := by decide

/-- Both tables, the first one behind three other bytes, give the same two functions. -/
theorem functionsAt_narrow_wide :
    Image.ofBytes (tableImage .four .little ([0xcc, 0xcc, 0xcc] ++ narrowBytes)).data =
        .ok (tableImage .four .little ([0xcc, 0xcc, 0xcc] ++ narrowBytes)) ∧
      Image.ofBytes (tableImage .eight .big ([] ++ wideBytes)).data =
        .ok (tableImage .eight .big ([] ++ wideBytes)) ∧
      functionsAt (tableImage .four .little ([0xcc, 0xcc, 0xcc] ++ narrowBytes)) narrowHeader.va
        .go1_2 0 = .ok mainFunctions ∧
      functionsAt (tableImage .eight .big ([] ++ wideBytes)) wideHeader.va .go1_20 0x401000 =
        functionsAt (tableImage .four .little ([0xcc, 0xcc, 0xcc] ++ narrowBytes))
          narrowHeader.va .go1_2 0 := by
  have hnarrow : Encodes (tableImage .four .little ([0xcc, 0xcc, 0xcc] ++ narrowBytes))
      narrowHeader 0 mainFunctions := encodes_tableImage .four rfl isTable_narrowBytes (by decide)
  have hwide : Encodes (tableImage .eight .big ([] ++ wideBytes)) wideHeader 0x401000
      mainFunctions := encodes_tableImage .eight rfl isTable_wideBytes (by decide +kernel)
  obtain ⟨hdecoded, hsame⟩ := functionsAt_eq isContiguous_mainFunctions
  exact ⟨Image.ofBytes_ofSection (by decide) (by decide) (by decide) (by decide +kernel),
    Image.ofBytes_ofSection (by decide) (by decide) (by decide) (by decide +kernel),
    hdecoded _ _ _ hnarrow, hsame _ _ _ _ _ _ hwide hnarrow⟩

end FunctionTable

end GoImage
