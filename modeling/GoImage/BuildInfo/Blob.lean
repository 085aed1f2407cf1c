import GoImage.BuildInfo.Lines
import GoImage.Image.Scan

/-!
The build information of an image: a header with a magic number, followed by the release and the
module information, either in place or behind pointers. Whatever could be read is kept when the
rest cannot.
-/

namespace GoImage.BuildInfo

open Decoder

def magic : List UInt8 := [
  0xff, 0x20, 0x47, 0x6f, 0x20, 0x62, 0x75, 0x69, 0x6c, 0x64, 0x69, 0x6e, 0x66, 0x3a]

def headerSize : Nat := 32

/-- Sections that hold nothing but the build information. -/
def sectionNames : List String :=
  [".go.buildinfo", "__go_buildinfo"]

/-- The longest text that a pointer may lead to. -/
def maxTextSize : Nat := 0x1000000

/-- What stands in front of module information. -/
def startMarker : List UInt8 := [
  0x30, 0x77, 0xaf, 0x0c, 0x92, 0x74, 0x08, 0x02, 0x41, 0xe1, 0xc1, 0x07, 0xe6, 0xd6, 0x18, 0xe6]

/-- What stands behind module information. -/
def endMarker : List UInt8 := [
  0xf9, 0x32, 0x43, 0x31, 0x86, 0x18, 0x20, 0x72, 0x00, 0x82, 0x42, 0x10, 0x41, 0x16, 0xd8, 0xf2]

def framed (text : ByteArray) : ByteArray :=
  startMarker.toByteArray ++ text ++ endMarker.toByteArray

/-- The text between the markers, and whether the marker behind it is missing. A line end in front
of the last sixteen bytes shows that the frame is whole. -/
def unframed (raw : ByteArray) : ByteArray × Bool :=
  if 33 ≤ raw.size ∧ raw[raw.size - 17]? = some 0x0a then
    (raw.extract 16 (raw.size - 16), false)
  else if hasBytes raw 0 startMarker then (raw.extract 16 raw.size, true)
  else (raw, false)

/-- The address of the header: the first aligned magic number in a section of its own, or else in
writable data. -/
def locate? (image : Image) : Option Nat :=
  (image.sectionsByPreference sectionNames).findSome? <|
    image.scanSection? 16 headerSize fun content pos va =>
      if hasBytes content pos magic then some va else none

/-- Bytes behind their count. -/
def sized : Decoder ByteArray := do
  take (← uvarint)

/-- Bytes behind their count at a position, and the position behind them. -/
def sizedAt (data : ByteArray) (pos : Nat) : Except Error (ByteArray × Nat) :=
  (do seek pos; return (← sized, (← get).pos) : Decoder (ByteArray × Nat)).on { data }

def pointerPair : Decoder (Nat × Nat) := do
  return (← pointer, ← pointer)

/-- Bytes behind a header of address and length. -/
def indirect (image : Image) (order : ByteOrder) (size : PointerSize) (va : Nat) :
    Except Error ByteArray := do
  let bytes ← image.bytesFrom va
  let (data, length) ← pointerPair.on { data := bytes, order, pointerSize := size.bytes }
  if maxTextSize < length then throw (.malformed (.stringLength length))
  if length = 0 then return ByteArray.empty
  image.bytesAt data length

abbrev Reading := EStateM Error BuildInfo

def keepRelease (raw : ByteArray) : Reading Unit :=
  modify fun info => { info with goVersion := Utf8.lossy raw }

/-- Both texts in place behind the header. The release is kept before the rest is read. -/
def readInline (header : ByteArray) : Reading ByteArray := do
  if header.size < headerSize then throw .outOfBounds
  let (release, pos) ← ofExcept ((sizedAt header headerSize).mapError .versionString)
  keepRelease release
  let (modules, _) ← ofExcept ((sizedAt header pos).mapError .moduleInfo)
  return modules

/-- Both texts behind pointers, in a byte order of the header's own. -/
def readIndirect (image : Image) (header : ByteArray) (order : ByteOrder) (size : Nat) :
    Reading ByteArray := do
  match PointerSize.ofBytes? size with
  | none => throw (.stringPointers size)
  | some size =>
    let pointers : Decoder (Nat × Nat) := do
      seek 16
      pointerPair
    let (release, modules) ← ofExcept
      (pointers.on { data := header, order, pointerSize := size.bytes })
    keepRelease (← ofExcept ((indirect image order size release).mapError .versionString))
    ofExcept ((indirect image order size modules).mapError .moduleInfo)

/-- Reads module information into what is known already. -/
def readModules (raw : ByteArray) : Reading Unit := do
  let (text, isCut) := unframed raw
  match (readText (Utf8.lossy text)).run { info := ← get } with
  | .error e lines =>
    set lines.info
    throw e
  | .ok _ lines =>
    set lines.info
    if isCut then throw (.endMarkerMissing lines.info.goVersion)

/-- Reads the build information of an image. The pointer size and the flags are looked up in the
header without a check, so that the run is aborted where they are missing. -/
def read (image : Image) : Reading Unit := do
  match locate? image with
  | none => throw .buildInfoAbsent
  | some va =>
    ofExcept (checkAddress va)
    let header ← ofExcept (image.bytesFrom va)
    match header[14]?, header[15]? with
    | some size, some flags =>
      let order := if flags.toNat.testBit 0 then ByteOrder.big else .little
      readModules (← if flags.toNat.testBit 1 then readInline header
        else readIndirect image header order size.toNat)
    | _, _ => throw .aborted

end GoImage.BuildInfo
