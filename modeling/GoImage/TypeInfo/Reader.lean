import GoImage.Image.Basic
import GoImage.ModuleData.Basic
import GoImage.TypeInfo.Descriptor
import GoImage.TypeInfo.Name

/-!
Reading type descriptors by address.
-/

namespace GoImage

open Decoder

/-- What reading needs to know besides the bytes. -/
structure TypeReader where
  image : Image
  /-- What name and type offsets are relative to. -/
  base : Nat
  encoding : NameEncoding
  /-- Whether the low bit of a field's offset says that the field is embedded. -/
  offsetsCarryBit : Bool

namespace TypeReader

def ofModule (image : Image) (m : ModuleData) (minor : Option Nat) : TypeReader :=
  { image
    base := m.types
    encoding := NameEncoding.select m.layout minor
    offsetsCarryBit :=
      m.layout = .go1_2 || m.layout = .go1_16 || minor.any (· < 19) }

/-- Size of the part that all descriptors share. -/
def headerSize (r : TypeReader) : Nat :=
  4 * r.image.pointerSize.bytes + 16

/-- The address at an offset, if there is such an address. -/
def resolve? (r : TypeReader) (offset : Int) : Option Nat :=
  let va := r.base + offset
  if 0 ≤ va ∧ va < wordModulus then some va.toNat else none

def name (r : TypeReader) (va : Nat) : Except Error Name :=
  r.image.decodeAt va (Name.decoder r.encoding va)

/-- Address and length of a table whose elements could fit in the file. -/
def tableHeader (r : TypeReader) (elementSize : Nat) : Decoder (Nat × Nat) := do
  let data ← pointer
  let length ← pointer
  let capacity ← pointer
  if capacity < length ∨ r.image.data.size < length * elementSize then
    throw (.malformed (.sliceRange length capacity))
  return (data, length)

/-- The elements of a table; an empty table may lie anywhere. -/
def table {α : Type} (r : TypeReader) (element : Decoder α) (data length : Nat) :
    Decoder (List α) :=
  if length = 0 then pure []
  else ofExcept (r.image.decodeAt data (times element length))

/-- A method of an interface. Offsets 0 and -1 stand for no type. -/
def method (r : TypeReader) : Decoder Method := do
  let nameOffset ← int .i32
  let typeOffset ← int .i32
  match r.resolve? nameOffset with
  | none => throw (.malformed (.methodNameOffset nameOffset))
  | some va =>
    let type := if typeOffset = 0 ∨ typeOffset = -1 then none else r.resolve? typeOffset
    return { name := (← ofExcept (r.name va)).text, type }

def field (r : TypeReader) : Decoder Field := do
  let nameVa ← pointer
  let type ← pointer
  let rawOffset ← pointer
  let name ← if nameVa = 0 then pure {} else ofExcept (r.name nameVa)
  let carried := r.offsetsCarryBit && rawOffset.testBit 0
  return {
    name := name.text
    type
    offset := if r.offsetsCarryBit then rawOffset / 2 else rawOffset
    embedded := carried || name.isEmbedded
    tag := name.tag }

/-- Where the parameters of a function type start. -/
def paramsOffset (r : TypeReader) (flags : Nat) : Nat :=
  r.headerSize + r.image.pointerSize.bytes +
    if Descriptor.hasUncommon flags then 16 else 0

/-- The top bit of the count of results says that the last parameter is variadic. -/
def funcShape (r : TypeReader) (flags : Nat) : Decoder Shape := do
  let paramCount ← word 2
  let resultWord ← word 2
  seek (r.paramsOffset flags)
  let params ← times pointer paramCount
  let results ← times pointer (resultWord % 0x8000)
  return .func params results (resultWord.testBit 15)

/-- What stands behind the shared part, by kind. -/
def shape (r : TypeReader) (kind : Kind) (flags : Nat) : Decoder Shape := do
  match kind with
  | .array =>
    let elem ← pointer
    skipPointers 1
    return .array elem (← pointer)
  | .chan =>
    let elem ← pointer
    let raw ← pointer
    match ChanDir.ofWord? raw with
    | some dir => return .chan elem dir
    | none => throw (.malformed (.channelDirection raw))
  | .func => r.funcShape flags
  | .interface =>
    skipPointers 1
    let (data, length) ← r.tableHeader 8
    return .interface (← r.table r.method data length)
  | .map => return .map (← pointer) (← pointer)
  | .pointer => return .pointer (← pointer)
  | .slice => return .slice (← pointer)
  | .struct =>
    skipPointers 1
    let (data, length) ← r.tableHeader (3 * r.image.pointerSize.bytes)
    return .struct (← r.table r.field data length)
  | _ => return .basic

/-- The name at an offset; offset zero stands for no name. -/
def nameText (r : TypeReader) (offset : Int) : Except Error String :=
  if offset = 0 then .ok ""
  else
    match r.resolve? offset with
    | none => .error (.malformed (.nameOffset offset))
    | some va => (r.name va).map (·.text)

/-- A name without the star that its flags declare to be extra. -/
def withoutExtraStar (flags : Nat) (name : String) : String :=
  match Descriptor.hasExtraStar flags, name.toList with
  | true, '*' :: rest => String.ofList rest
  | _, _ => name

def descriptor (r : TypeReader) (va : Nat) : Decoder Descriptor := do
  let size ← pointer
  skipPointers 1
  let hash ← word 4
  let flags ← word 1
  skip 2
  let kind := Kind.ofByte (← word 1)
  skipPointers 2
  let nameOffset ← int .i32
  skip 4
  let name := withoutExtraStar flags (← ofExcept (r.nameText nameOffset))
  let shape ← r.shape kind flags
  return { va, size, hash, flags, kind, name, shape }

/-- The descriptor at an address. -/
def read (r : TypeReader) (va : Nat) : Except Error Descriptor :=
  (r.image.decodeAt va (r.descriptor va)).mapError (.descriptor va)

end TypeReader
end GoImage
