import GoImage.Image.Coff
import GoImage.Text.Pieces

/-!
Headers of the Portable Executable format.
-/

namespace GoImage.Pe

open Decoder

structure FileHeader where
  machine : Nat
  sectionCount : Nat
  symbolOffset : Nat
  symbolCount : Nat
  optionalSize : Nat
deriving Repr, DecidableEq

def FileHeader.symbolTable (header : FileHeader) (data : ByteArray) : Coff.Table :=
  { data, offset := header.symbolOffset, count := header.symbolCount }

structure OptionalHeader where
  width : PointerSize
  entry : Nat
  imageBase : Nat
deriving Repr, DecidableEq

structure SectionHeader where
  name : String
  virtualSize : Nat
  virtualAddress : Nat
  rawSize : Nat
  rawOffset : Nat
  characteristics : Nat
deriving Repr, DecidableEq

def fileHeader : Decoder FileHeader := do
  let machine ← word 2
  let sectionCount ← word 2
  skip 4
  let symbolOffset ← word 4
  let symbolCount ← word 4
  let optionalSize ← word 2
  skip 2
  return { machine, sectionCount, symbolOffset, symbolCount, optionalSize }

/-- Passes over the table of directories, which has at most sixteen entries. -/
def directories : Decoder Unit := do
  let count ← word 4
  if 16 < count then throw .outOfBounds
  skip (8 * count)

/-- The optional header at `start`, in its narrow or wide form. -/
def optionalHeader (start : Nat) : Decoder OptionalHeader := do
  match ← word 2 with
  | 0x10b =>
    seek (start + 16)
    let entry ← word 4
    seek (start + 28)
    let imageBase ← word 4
    seek (start + 92)
    directories
    return { width := .four, entry, imageBase }
  | 0x20b =>
    seek (start + 16)
    let entry ← word 4
    seek (start + 24)
    let imageBase ← word 8
    seek (start + 108)
    directories
    return { width := .eight, entry, imageBase }
  | _ => throw .outOfBounds

/-- The value of a digit to base 64. -/
def digit64? (c : Char) : Option Nat :=
  if 'A' ≤ c ∧ c ≤ 'Z' then some (c.toNat - 'A'.toNat)
  else if 'a' ≤ c ∧ c ≤ 'z' then some (c.toNat - 'a'.toNat + 26)
  else if '0' ≤ c ∧ c ≤ '9' then some (c.toNat - '0'.toNat + 52)
  else if c = '+' then some 62
  else if c = '/' then some 63
  else none

def number64? (digits : List Char) : Option Nat :=
  digits.foldlM (fun n c => (digit64? c).map (64 * n + ·)) 0

/-- The string offset behind the slash of an indirect name: decimal with an optional sign, or to
base 64 behind a second slash. -/
def stringOffset? : List Char → Option Nat
  | '/' :: digits => number64? digits
  | '+' :: digits => Text.decimal? digits
  | digits => Text.decimal? digits

/-- A name of up to eight bytes. One that starts with a slash names a string behind the symbols
and stands for itself if there is no such string. -/
def sectionName (strings : Nat) : Decoder String := do
  let field ← take 8
  let stop := untilZero field 0
  let plain := (String.fromUTF8? (field.extract 0 stop)).getD ""
  if field[0]? ≠ some '/'.toUInt8 then return plain
  match String.fromUTF8? (field.extract 1 stop) with
  | none => throw .outOfBounds
  | some digits =>
    match stringOffset? digits.toList with
    | none => throw .outOfBounds
    | some offset =>
      return (textAt? (← get).data (strings + offset)).getD plain

def sectionHeader (strings : Nat) : Decoder SectionHeader := do
  let name ← sectionName strings
  let virtualSize ← word 4
  let virtualAddress ← word 4
  let rawSize ← word 4
  let rawOffset ← word 4
  skip 12
  let characteristics ← word 4
  return { name, virtualSize, virtualAddress, rawSize, rawOffset, characteristics }

/-- A section without a size in memory is as large as its content in the file, and content beyond
the size in memory does not count. -/
def sectionOf (imageBase : Nat) (header : SectionHeader) : Section :=
  let size := if header.virtualSize = 0 then header.rawSize else header.virtualSize
  let zeroFill := header.characteristics.testBit 7
  let fileSize := if zeroFill then 0 else min header.rawSize size
  { name := header.name
    address := imageBase + header.virtualAddress
    size
    offset := header.rawOffset
    fileSize
    executable := header.characteristics.testBit 29
    writable := header.characteristics.testBit 31
    initialized := 0 < fileSize }

def arch (machine : Nat) : String :=
  match machine with
  | 0x14c => "386"
  | 0x8664 => "amd64"
  | 0x1c0 | 0x1c4 => "arm"
  | 0xaa64 => "arm64"
  | _ => "unknown"

/-- Where the file keeps its signature. -/
def signatureOffset : Decoder Nat := do
  seek 0x3c
  word 4

def signature : List UInt8 :=
  [0x50, 0x45, 0, 0]

def headerTables : Decoder (FileHeader × OptionalHeader × List SectionHeader) := do
  let start ← signatureOffset
  if start < 0x40 then throw .outOfBounds
  seek (start + 4)
  let file ← fileHeader
  let optional ← if file.optionalSize = 0
    then pure { width := .four, entry := 0, imageBase := 0 }
    else optionalHeader (start + 24)
  let strings := file.symbolOffset + Coff.recordSize * file.symbolCount
  let sections ← if file.sectionCount = 0 then pure [] else do
    seek (start + 24 + file.optionalSize)
    times (sectionHeader strings) file.sectionCount
  return (file, optional, sections)

/-- The image that the tables describe. Sections, symbols and the entry point lie relative to the
address that it is made for. -/
def headers (data : ByteArray) (file : FileHeader) (optional : OptionalHeader)
    (table : List SectionHeader) : Except Error Headers := do
  let sections := table.map (sectionOf optional.imageBase)
  sections.forM fun s => checkAddress s.address
  let symbols ← (file.symbolTable data).symbols sections
  let entry := if optional.entry = 0 then 0 else optional.imageBase + optional.entry
  checkAddress entry
  return {
    format := .pe
    sections
    symbols
    entry
    pointerSize := optional.width
    order := .little
    arch := arch file.machine
    os := "windows" }

end GoImage.Pe
