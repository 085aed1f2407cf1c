import GoImage.Image.Basic
import GoImage.Layout

/-!
The header of a function table, and the table as bytes that offsets are relative to.
-/

namespace GoImage

namespace FunctionTable

/-- Fields that a layout does not have are zero. -/
structure Header where
  layout : Layout
  va : Nat
  /-- Smallest step between instructions. -/
  quantum : Nat
  pointerSize : PointerSize
  functionCount : Nat
  fileCount : Nat := 0
  /-- What entry offsets are relative to; zero if not recorded. -/
  textStart : Nat := 0
  namesOffset : Nat := 0
  unitsOffset : Nat := 0
  filesOffset : Nat := 0
  pcOffset : Nat := 0
  /-- Start of the function entries. -/
  entriesOffset : Nat
deriving Repr, DecidableEq

namespace Header

/-- The address of the first function entry. -/
def entriesVa (header : Header) : Nat :=
  wrap (header.va + header.entriesOffset)

def entrySize (header : Header) : Nat :=
  header.layout.entrySize header.pointerSize.bytes

end Header

open Decoder in
/-- The words of a header behind its first eight bytes. -/
def headerWords (layout : Layout) (va quantum : Nat) (pointerSize : PointerSize) :
    Decoder Header := do
  seek 8
  let functionCount ← pointer
  match layout with
  | .go1_2 =>
    return { layout, va, quantum, pointerSize, functionCount,
             entriesOffset := 8 + pointerSize.bytes }
  | .go1_16 =>
    let fileCount ← pointer
    let namesOffset ← pointer
    let unitsOffset ← pointer
    let filesOffset ← pointer
    let pcOffset ← pointer
    let entriesOffset ← pointer
    return { layout, va, quantum, pointerSize, functionCount, fileCount, namesOffset,
             unitsOffset, filesOffset, pcOffset, entriesOffset }
  | .go1_18 | .go1_20 =>
    let fileCount ← pointer
    let textStart ← pointer
    let namesOffset ← pointer
    let unitsOffset ← pointer
    let filesOffset ← pointer
    let pcOffset ← pointer
    let entriesOffset ← pointer
    return { layout, va, quantum, pointerSize, functionCount, fileCount, textStart, namesOffset,
             unitsOffset, filesOffset, pcOffset, entriesOffset }

/-- The header at the start of the bytes from an address on. Magic number and padding are not
looked at again: the layout has been settled before. -/
def readHeader (order : ByteOrder) (data : ByteArray) (va : Nat) (layout : Layout) :
    Except Error Header :=
  match data[6]?, data[7]? with
  | some quantum, some size =>
    match PointerSize.ofBytes? size.toNat with
    | some size =>
      (headerWords layout va quantum.toNat size).on { data, order, pointerSize := size.bytes }
    | none => .error (.functionTable (.pointerSize size.toNat))
  | _, _ => .error .outOfBounds

end FunctionTable

/-- A function table: its header, and the bytes from the header to the end of the section. -/
structure FunctionTable where
  header : FunctionTable.Header
  order : ByteOrder
  data : ByteArray

namespace FunctionTable

def read (image : Image) (va : Nat) (layout : Layout) : Except Error FunctionTable := do
  let data ← image.bytesFrom va
  return { header := ← readHeader image.order data va layout, order := image.order, data }

/-- Runs a decoder at an offset of the table. -/
def decodeAt {α : Type} (table : FunctionTable) (offset : Nat) (decoder : Decoder α) :
    Except Error α :=
  (do Decoder.seek offset; decoder : Decoder α).on
    { data := table.data, order := table.order
      pointerSize := table.header.pointerSize.bytes }

end FunctionTable
end GoImage
