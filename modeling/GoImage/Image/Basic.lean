import GoImage.Bytes.Decoder
import GoImage.Image.Section

/-!
A loaded executable, and reading it by address. Every read by address goes through the first
section that holds the address, and never leaves the content of that section.
-/

namespace GoImage

inductive Format
  | elf
  | pe
  | machO
deriving Repr, DecidableEq

def Format.name : Format → String
  | .elf => "ELF"
  | .pe => "PE"
  | .machO => "Mach-O"

/-- Names with addresses; the first entry of a name counts. -/
abbrev Symbols := List (String × Nat)

/-- What the headers of an executable say. -/
structure Headers where
  format : Format
  /-- Sections in the order of the headers. -/
  sections : List Section
  symbols : Symbols
  entry : Nat
  pointerSize : PointerSize
  order : ByteOrder
  arch : String
  os : String
deriving Repr, DecidableEq

/-- An executable: its headers and all its bytes. -/
structure Image extends Headers where
  data : ByteArray

namespace Image

def symbol? (image : Image) (name : String) : Option Nat :=
  image.symbols.lookup name

def sectionNamed? (image : Image) (name : String) : Option Section :=
  image.sections.find? (·.name == name)

/-- The first section whose file content holds an address. -/
def sectionHolding? (image : Image) (va : Nat) : Option Section :=
  image.sections.find? (·.holds va)

/-- The section at an address; content from the file wins over zero-filled memory. -/
def sectionAt? (image : Image) (va : Nat) : Option Section :=
  (image.sectionHolding? va).or (image.sections.find? (·.contains va))

/-- The bytes of the file from `offset` on. -/
def slice (image : Image) (offset size : Nat) : Except Error ByteArray :=
  if offset + size ≤ image.data.size then .ok (image.data.extract offset (offset + size))
  else .error .outOfBounds

/-- The content of a section; empty if the file holds none of it. -/
def content (image : Image) (s : Section) : Except Error ByteArray :=
  if s.isFileBacked then image.slice s.offset s.fileSize else .ok ByteArray.empty

/-- The bytes from an address to the end of its section's content. -/
def bytesFrom (image : Image) (va : Nat) : Except Error ByteArray :=
  match image.sectionHolding? va with
  | none => .error .outOfBounds
  | some s =>
    match image.content s with
    | .error e => .error e
    | .ok content =>
      if va - s.address ≤ content.size then .ok (content.extract (va - s.address) content.size)
      else .error .outOfBounds

/-- Exactly `size` bytes from an address on. -/
def bytesAt (image : Image) (va size : Nat) : Except Error ByteArray :=
  match image.bytesFrom va with
  | .error e => .error e
  | .ok bytes => if size ≤ bytes.size then .ok (bytes.extract 0 size) else .error .outOfBounds

/-- Where the file holds the byte at an address. -/
def offsetOf (image : Image) (va : Nat) : Except Error Nat :=
  match image.sectionHolding? va with
  | none => .error .outOfBounds
  | some s =>
    let offset := s.offset + (va - s.address)
    if offset < wordModulus then .ok offset else .error .outOfBounds

/-- A cursor over bytes of the image, with its byte order and pointer width. -/
def cursor (image : Image) (data : ByteArray) : Cursor :=
  { data, order := image.order, pointerSize := image.pointerSize.bytes }

/-- Runs a decoder on the bytes from an address on. -/
def decodeAt {α : Type} (image : Image) (va : Nat) (decoder : Decoder α) : Except Error α :=
  match image.bytesFrom va with
  | .error e => .error e
  | .ok bytes => decoder.on (image.cursor bytes)

def pointerAt (image : Image) (va : Nat) : Except Error Nat :=
  image.decodeAt va Decoder.pointer

end Image
end GoImage
