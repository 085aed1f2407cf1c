import GoImage.Image.Elf
import GoImage.Image.MachO
import GoImage.Image.Pe

/-!
Recognising the format of an executable by its first bytes, and loading it.
-/

namespace GoImage

namespace Format

def elfMagic : List UInt8 :=
  [0x7f, 0x45, 0x4c, 0x46]

def dosMagic : List UInt8 :=
  [0x4d, 0x5a]

/-- Whether a file starts as a program for the older system and names a signature further on. -/
def looksPe (data : ByteArray) : Bool :=
  match Pe.signatureOffset.on { data } with
  | .ok offset => hasBytes data 0 dosMagic && hasBytes data offset Pe.signature
  | .error _ => false

def ofBytes (data : ByteArray) : Except Error Format :=
  if hasBytes data 0 elfMagic then .ok .elf
  else if looksPe data then .ok .pe
  else if (MachO.magicShape? data).isSome then .ok .machO
  else .error .unsupportedFormat

end Format

/-- The headers of an executable; whatever is wrong with their bytes counts as one fault. -/
def Headers.ofBytes (data : ByteArray) : Except Error Headers := do
  match ← Format.ofBytes data with
  | .elf => (Elf.headers data).mapError fun _ => .container
  | .pe =>
    let (file, optional, table) ← (Pe.headerTables.on { data }).mapError fun _ => .container
    Pe.headers data file optional table
  | .machO => (MachO.headers data).mapError fun _ => .container

def Image.ofBytes (data : ByteArray) : Except Error Image := do
  if data.size = 0 then throw .empty
  return { ← Headers.ofBytes data with data }

end GoImage
