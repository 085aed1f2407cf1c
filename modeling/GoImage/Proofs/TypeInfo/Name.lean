import GoImage.Proofs.Bytes.Text
import GoImage.TypeInfo.Name

/-! # Names that are written and read

A name is a byte of flags, a text behind its length, and a tag in the same form where the flags
announce one. Either form of the length gives back the name that was written. -/

namespace GoImage.Name

open Decoder

/-- The bytes of a text behind their count. -/
def sizedText (isLegacy : Bool) (text : String) : List UInt8 :=
  (if isLegacy then ByteOrder.big.encode 2 text.utf8ByteSize else varintBytes text.utf8ByteSize) ++
    textBytes text

/-- The longest text has fewer bytes than this. -/
def sizeLimit (isLegacy : Bool) : Nat :=
  if isLegacy then 0x10000 else wordModulus

def bytes (isLegacy : Bool) (name : Name) : List UInt8 :=
  UInt8.ofNat name.flags :: (sizedText isLegacy name.text ++
    match name.tag with
    | some tag => sizedText isLegacy tag
    | none => [])

/-- Whether a name can be written: flags and lengths fit, and the flags say whether there is a
tag. -/
structure IsWritable (isLegacy : Bool) (name : Name) : Prop where
  flags_lt : name.flags < 256
  hasTag_eq : hasTag name.flags = name.tag.isSome
  text_lt : name.text.utf8ByteSize < sizeLimit isLegacy
  tag_lt : ∀ tag ∈ name.tag, tag.utf8ByteSize < sizeLimit isLegacy

variable {order : ByteOrder} {size : Nat} {isLegacy : Bool} {name : Name}

theorem bytes_ne_nil : name.bytes isLegacy ≠ [] :=
  List.cons_ne_nil _ _

theorem reads_lengthText {text : String} (h : text.utf8ByteSize < sizeLimit isLegacy) (va : Nat) :
    Reads order size (lengthText isLegacy va) (sizedText isLegacy text) text := by
  have hlength : Reads order size (length isLegacy)
      (if isLegacy then ByteOrder.big.encode 2 text.utf8ByteSize
        else varintBytes text.utf8ByteSize) text.utf8ByteSize := by
    cases isLegacy with
    | true => exact .wordIn .big h
    | false => exact .uvarint h
  have htext : Reads order size (take text.utf8ByteSize) (textBytes text) text.toByteArray := by
    rw [← length_textBytes, ← toByteArray_textBytes]
    exact .take (textBytes text)
  refine hlength.bind (htext.bind_nil ?_)
  rw [fromUTF8?_toByteArray]
  exact .pure text

/-- A name is read from its bytes. -/
theorem reads_decoder {encoding : NameEncoding} (hencoding : encoding ≠ .probe)
    (h : name.IsWritable (encoding = .legacy)) (va : Nat) :
    Reads order size (decoder encoding va) (name.bytes (encoding = .legacy)) name := by
  have hlegacy : ∀ data, encoding.isLegacy data = decide (encoding = .legacy) := by
    cases encoding with
    | legacy | varint => exact fun _ => rfl
    | probe => exact absurd rfl hencoding
  refine .get_bind fun c => ?_
  simp only [hlegacy]
  refine (Reads.byte h.flags_lt).bind ((reads_lengthText h.text_lt va).bind ?_)
  rw [h.hasTag_eq]
  obtain ⟨text, tag, flags⟩ := name
  cases tag with
  | none => exact .pure _
  | some tag => exact ((reads_lengthText (h.tag_lt tag rfl) va).map some).bind_nil (.pure _)

end GoImage.Name
