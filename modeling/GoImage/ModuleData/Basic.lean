import GoImage.FunctionTable.Header

/-!
The module record of the runtime: which tables an executable has, and where.
-/

namespace GoImage

/-- Address, length and capacity of a slice in memory. -/
structure Slice where
  data : Nat
  length : Nat
  capacity : Nat
deriving Repr, DecidableEq

structure ModuleData where
  va : Nat
  layout : Layout
  /-- The address of the function table. -/
  functionTable : Nat
  ftab : Slice
  filetab : Slice
  minpc : Nat
  maxpc : Nat
  text : Nat
  etext : Nat
  types : Nat
  etypes : Nat
  typelinks : Slice
  itablinks : Slice
deriving Repr, DecidableEq

namespace ModuleData

/-- What a record can contradict, in the order of looking. -/
inductive Check
  | functionTable
  | ftabBounds
  | ftabLength
  | ftabAddress
  | textRange
  | pcRange
  | typesRange
  | typelinks
  | itablinks
  | filetab
  | typelinkOffsets
deriving Repr, DecidableEq

def Check.name : Check → String
  | functionTable => "pclntab pointer"
  | ftabBounds => "ftab bounds"
  | ftabLength => "ftab length"
  | ftabAddress => "ftab address"
  | textRange => "text range"
  | pcRange => "pc range"
  | typesRange => "types range"
  | typelinks => "typelinks"
  | itablinks => "itablinks"
  | filetab => "filetab"
  | typelinkOffsets => "typelinks offsets"

open Decoder in
/-- The word at an index of a record. -/
def wordAt (index : Nat) : Decoder Nat := do
  seek 0
  skipPointers index
  pointer

def sliceAt (index : Nat) : Decoder Slice := do
  return ⟨← wordAt index, ← wordAt (index + 1), ← wordAt (index + 2)⟩

def record (va : Nat) (layout : Layout) : Decoder ModuleData := do
  let words := layout.moduleWords
  return {
    va
    layout
    functionTable := ← wordAt 0
    ftab := ← sliceAt words.ftab
    filetab := ← sliceAt words.filetab
    minpc := ← wordAt words.minpc
    maxpc := ← wordAt (words.minpc + 1)
    text := ← wordAt words.text
    etext := ← wordAt (words.text + 1)
    types := ← wordAt words.types
    etypes := ← wordAt (words.types + 1)
    typelinks := ← sliceAt words.typelinks
    itablinks := ← sliceAt words.itablinks }

/-- The record at an address, all of whose words must be there. -/
def read (image : Image) (va : Nat) (layout : Layout) : Except Error ModuleData := do
  let data ← image.bytesAt va (layout.moduleWords.count * image.pointerSize.bytes)
  (record va layout).on (image.cursor data)

/-- How many of the links to types are looked at. -/
def sampleSize : Nat := 16

/-- Whether the first links to types stay within the types. Links that are not in the file are
left for later. -/
def linksWithinTypes (image : Image) (m : ModuleData) : Bool :=
  let count := min m.typelinks.length sampleSize
  match image.bytesAt m.typelinks.data (4 * count) with
  | .error _ => true
  | .ok data =>
    match (Decoder.times (Decoder.int .i32) count).on (image.cursor data) with
    | .error _ => false
    | .ok links => links.all fun link => 0 ≤ link && link.toNat < m.etypes - m.types

/-- Whether a slice is within its capacity, and its elements could fit in the file. -/
def sliceFits (image : Image) (elementSize : Nat) (s : Slice) : Bool :=
  s.length ≤ s.capacity && s.length * elementSize ≤ image.data.size

/-- All checks in order, with their outcomes. -/
def checks (image : Image) (header : FunctionTable.Header) (m : ModuleData) :
    List (Check × Bool) := [
  (.functionTable, m.functionTable == header.va),
  (.ftabBounds, m.ftab.length ≠ 0 && m.ftab.length ≤ m.ftab.capacity),
  (.ftabLength, m.ftab.length == header.functionCount + 1),
  (.ftabAddress, m.ftab.data == header.entriesVa),
  (.textRange, m.text ≤ m.etext),
  (.pcRange, m.minpc ≤ m.maxpc),
  (.typesRange, m.types < m.etypes),
  (.typelinks, sliceFits image 4 m.typelinks),
  (.itablinks, sliceFits image image.pointerSize.bytes m.itablinks),
  (.filetab, sliceFits image m.layout.fileEntrySize m.filetab),
  (.typelinkOffsets, linksWithinTypes image m)]

/-- The first check that a record fails. -/
def failedCheck? (image : Image) (header : FunctionTable.Header) (m : ModuleData) :
    Option Check :=
  ((checks image header m).find? (!·.2)).map (·.1)

def isValid (image : Image) (header : FunctionTable.Header) (m : ModuleData) : Bool :=
  (failedCheck? image header m).isNone

end ModuleData
end GoImage
