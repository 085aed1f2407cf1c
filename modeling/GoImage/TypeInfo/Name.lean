import GoImage.Bytes.Decoder
import GoImage.Layout

/-!
Names in type data: a byte of flags and a text with its length in front, and possibly a tag in the
same form. How a length is written changed between releases.
-/

namespace GoImage

/-- How lengths in names are written. -/
inductive NameEncoding
  | legacy
  | varint
  /-- One of the two, decided by each name's first bytes. -/
  | probe
deriving Repr, DecidableEq

namespace NameEncoding

/-- The change came with release 17, in the middle of a layout. -/
def select (layout : Layout) (minor : Option Nat) : NameEncoding :=
  match layout, minor with
  | .go1_2, _ => legacy
  | .go1_18, _ | .go1_20, _ => varint
  | .go1_16, some n => if 17 ≤ n then varint else legacy
  | .go1_16, none => probe

/-- Whether a name has lengths of two bytes, most significant first. -/
def isLegacy (encoding : NameEncoding) (data : ByteArray) : Bool :=
  match encoding with
  | legacy => true
  | varint => false
  | probe => 2 < data.size && data[1]? = some 0 && data[2]? ≠ some 0

end NameEncoding

structure Name where
  text : String := ""
  tag : Option String := none
  flags : Nat := 0
deriving Repr, DecidableEq

namespace Name

open Decoder

/-- The flags with a meaning; the upper bits of their byte have none. -/
def knownFlags (flags : Nat) : Nat :=
  flags % 0x10

def hasTag (flags : Nat) : Bool :=
  flags.testBit 1

def isEmbedded (name : Name) : Bool :=
  name.flags.testBit 3

def length (isLegacy : Bool) : Decoder Nat :=
  if isLegacy then wordIn .big 2 else uvarint

/-- Text behind its length. -/
def lengthText (isLegacy : Bool) (va : Nat) : Decoder String := do
  let bytes ← take (← length isLegacy)
  match String.fromUTF8? bytes with
  | some text => return text
  | none => throw (.malformed (.nameText va))

/-- The name at an address. -/
def decoder (encoding : NameEncoding) (va : Nat) : Decoder Name := do
  let isLegacy := encoding.isLegacy (← get).data
  let flags ← word 1
  let text ← lengthText isLegacy va
  let tag ← if hasTag flags then some <$> lengthText isLegacy va else pure none
  return { text, tag, flags }

end Name
end GoImage
