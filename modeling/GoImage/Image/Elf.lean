import GoImage.Image.Basic

/-!
Headers of the Executable and Linkable Format. A file without section headers is described by its
load segments instead.
-/

namespace GoImage.Elf

open Decoder

structure FileHeader where
  machine : Nat
  entry : Nat
  programOffset : Nat
  sectionOffset : Nat
  programCount : Nat
  sectionCount : Nat
  /-- Which section holds the names of the sections. -/
  namesIndex : Nat
deriving Repr, DecidableEq

structure SectionHeader where
  name : Nat
  type : Nat
  flags : Nat
  address : Nat
  offset : Nat
  size : Nat
  link : Nat
  entrySize : Nat
deriving Repr, DecidableEq

structure ProgramHeader where
  type : Nat
  flags : Nat
  offset : Nat
  address : Nat
  fileSize : Nat
  size : Nat
deriving Repr, DecidableEq

def fileHeader : Decoder FileHeader := do
  seek 18
  let machine ← word 2
  skip 4
  let entry ← pointer
  let programOffset ← pointer
  let sectionOffset ← pointer
  skip 8
  let programCount ← word 2
  skip 2
  let sectionCount ← word 2
  let namesIndex ← word 2
  return { machine, entry, programOffset, sectionOffset, programCount, sectionCount, namesIndex }

def sectionHeader : Decoder SectionHeader := do
  let name ← word 4
  let type ← word 4
  let flags ← pointer
  let address ← pointer
  let offset ← pointer
  let size ← pointer
  let link ← word 4
  skip 4
  skipPointers 1
  let entrySize ← pointer
  return { name, type, flags, address, offset, size, link, entrySize }

/-- The flags stand before the ranges in wide files and behind them in narrow ones. -/
def programHeader (width : PointerSize) : Decoder ProgramHeader := do
  let type ← word 4
  let early ← match width with
    | .eight => word 4
    | .four => pure 0
  let offset ← pointer
  let address ← pointer
  skipPointers 1
  let fileSize ← pointer
  let size ← pointer
  let late ← match width with
    | .eight => pure 0
    | .four => word 4
  skipPointers 1
  return { type, flags := early + late, offset, address, fileSize, size }

/-- The offset of a symbol's name, and its value. -/
def symbolEntry (width : PointerSize) : Decoder (Nat × Nat) := do
  let name ← word 4
  match width with
  | .eight =>
    skip 4
    let value ← pointer
    skip 8
    return (name, value)
  | .four =>
    let value ← pointer
    skip 8
    return (name, value)

/-- Header types. -/
def unusedType : Nat := 0
def symbolTableType : Nat := 2
def zeroFillType : Nat := 8
def loadType : Nat := 1

/-- All section headers. A count of zero means that the first header states the count as its
size; the first header is there in any case. -/
def sectionHeaders (header : FileHeader) : Decoder (List SectionHeader) := do
  if header.sectionOffset = 0 then return []
  seek header.sectionOffset
  let first ← sectionHeader
  let count := if header.sectionCount = 0 then first.size else header.sectionCount
  return first :: (← times sectionHeader (count - 1))

def programHeaders (width : PointerSize) (header : FileHeader) :
    Decoder (List ProgramHeader) := do
  if header.programCount = 0 then return []
  seek header.programOffset
  times (programHeader width) header.programCount

/-- The bytes of a table of names. All of it must be text, and its range must lie in the file and
in the address space. An index outside the headers gives an empty table. -/
def nameTable (sections : List SectionHeader) (index : Nat) : Decoder ByteArray := do
  let index := match sections with
    | first :: _ => if index = 0xffff then first.link else index
    | [] => index
  match sections[index]? with
  | none => return ByteArray.empty
  | some header =>
    if header.type ≠ zeroFillType ∧ wordModulus ≤ header.address + header.size then
      throw .outOfBounds
    seek header.offset
    let table ← take header.size
    if !table.validateUTF8 then throw .outOfBounds
    return table

/-- The symbols of the last symbol table that have a value and a name. -/
def symbols (width : PointerSize) (sections : List SectionHeader) : Decoder Symbols := do
  match sections.reverse.find? (·.type = symbolTableType) with
  | none => return []
  | some header =>
    let count := if header.entrySize = 0 then 0 else header.size / header.entrySize
    let entries ← if count = 0 then pure [] else do
      seek header.offset
      times (symbolEntry width) count
    let names ← nameTable sections header.link
    return entries.filterMap fun (name, value) =>
      match textAt? names name with
      | some name => if value = 0 ∨ name = "" then none else some (name, value)
      | none => none

def sectionOf (names : ByteArray) (header : SectionHeader) : Section :=
  let zeroFill : Bool := header.type = zeroFillType
  { name := (textAt? names header.name).getD ""
    address := header.address
    size := header.size
    offset := header.offset
    fileSize := if zeroFill then 0 else header.size
    executable := header.flags.testBit 2
    writable := header.flags.testBit 0
    initialized := !zeroFill }

def sectionOfSegment (header : ProgramHeader) (index : Nat) : Section :=
  { name := s!"LOAD{index}"
    address := header.address
    size := header.size
    offset := header.offset
    fileSize := min header.fileSize header.size
    executable := header.flags.testBit 0
    writable := header.flags.testBit 1
    initialized := 0 < header.fileSize }

def arch (machine : Nat) (width : PointerSize) (order : ByteOrder) : String :=
  match machine, width, order with
  | 3, _, _ => "386"
  | 62, _, _ => "amd64"
  | 40, _, _ => "arm"
  | 183, _, _ => "arm64"
  | 21, _, .little => "ppc64le"
  | 21, _, .big => "ppc64"
  | 8, .eight, .little => "mips64le"
  | 8, .eight, .big => "mips64"
  | 8, .four, .little => "mipsle"
  | 8, .four, .big => "mips"
  | 243, _, _ => "riscv64"
  | 22, _, _ => "s390x"
  | 258, _, _ => "loong64"
  | _, _, _ => "unknown"

def os (abi : Nat) : String :=
  match abi with
  | 2 => "netbsd"
  | 6 => "solaris"
  | 9 => "freebsd"
  | 12 => "openbsd"
  | _ => "linux"

/-- Width, byte order and operating system from the first bytes. -/
def identification : Decoder (PointerSize × ByteOrder × Nat) := do
  seek 4
  let width ← match ← word 1 with
    | 1 => pure PointerSize.four
    | 2 => pure PointerSize.eight
    | _ => throw .outOfBounds
  let order ← match ← word 1 with
    | 1 => pure ByteOrder.little
    | 2 => pure ByteOrder.big
    | _ => throw .outOfBounds
  skip 1
  let abi ← word 1
  return (width, order, abi)

def headersIn (width : PointerSize) (order : ByteOrder) (abi : Nat) : Decoder Headers := do
  let header ← fileHeader
  let segments ← programHeaders width header
  let table ← sectionHeaders header
  let names ← nameTable table header.namesIndex
  let symbols ← symbols width table
  let used := table.filter (·.type ≠ unusedType)
  let sections :=
    if used.isEmpty then
      (segments.filter (·.type = loadType)).mapIdx fun i segment => sectionOfSegment segment i
    else used.map (sectionOf names)
  return {
    format := .elf
    sections
    symbols
    entry := header.entry
    pointerSize := width
    order
    arch := arch header.machine width order
    os := os abi }

def headers (data : ByteArray) : Except Error Headers := do
  let (width, order, abi) ← identification.on { data }
  (headersIn width order abi).on { data, order, pointerSize := width.bytes }

end GoImage.Elf
