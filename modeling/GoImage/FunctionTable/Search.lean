import GoImage.FunctionTable.Header
import GoImage.Image.Scan
import GoImage.Release

/-!
Finding the function table: in a section of its own, by its symbol, or by its magic number.
-/

namespace GoImage.FunctionTable

/-- How a table was found. -/
inductive Source
  | ofSection
  | symbol
  | scan
deriving Repr, DecidableEq

structure Location where
  va : Nat
  layout : Layout
  source : Source
deriving Repr, DecidableEq

/-- Sections that hold nothing but the table. -/
def sectionNames : List String :=
  [".gopclntab", "__gopclntab"]

def symbolName : String :=
  "runtime.pclntab"

/-- The layout whose magic number stands at `pos`, if the fixed part of a header does: two zero
bytes, a step of 1, 2 or 4 and a pointer size follow the magic number. -/
def layoutAt? (order : ByteOrder) (data : ByteArray) (pos : Nat) : Option Layout := do
  let magic ← (order.readWord 4 data pos).toOption
  let layout ← Layout.ofMagic? magic
  guard (data[pos + 4]? = some 0 ∧ data[pos + 5]? = some 0)
  let quantum ← data[pos + 6]?
  guard (quantum = 1 ∨ quantum = 2 ∨ quantum = 4)
  let size ← data[pos + 7]?
  let _ ← PointerSize.ofBytes? size.toNat
  return layout

/-- Whether a header at `pos` counts at least one function. -/
def countsFunctions (order : ByteOrder) (data : ByteArray) (pos : Nat) : Bool :=
  match data[pos + 7]? with
  | none => false
  | some size =>
    match order.readWord size.toNat data (pos + 8) with
    | .ok count => count ≠ 0
    | .error _ => false

/-- A table at a given address. A forced layout needs no magic number, only the room for one. -/
def accept? (image : Image) (forced : Option Layout) (source : Source) (va : Nat) :
    Option Location := do
  let data ← (image.bytesFrom va).toOption
  match layoutAt? image.order data 0, forced with
  | some layout, _ => return ⟨va, forced.getD layout, source⟩
  | none, some layout => if 8 ≤ data.size then return ⟨va, layout, source⟩ else failure
  | none, none => failure

/-- Whether the four bytes at `pos` start or end as a magic number does in either byte order. -/
def mayShowMagic (data : ByteArray) (pos : Nat) : Bool :=
  data[pos]? = some 0xff || data[pos + 3]? = some 0xff

/-- The first table in a section's content, at a multiple of four. Where no magic number can stand,
nothing else is looked at. -/
def scanSection? (image : Image) (forced : Option Layout) (s : Section) : Option Location :=
  image.scanSection? 4 8 (fun content pos va =>
    if mayShowMagic content pos then
      match layoutAt? image.order content pos with
      | some layout =>
        if countsFunctions image.order content pos then some ⟨va, forced.getD layout, .scan⟩
        else none
      | none => none
    else none) s

/-- Candidates in order: sections by name, the symbol, and a scan of all content. -/
def locate? (image : Image) (forced : Option Layout) : Option Location :=
  let named := (sectionNames.filterMap image.sectionNamed?).findSome? fun s =>
    accept? image forced .ofSection s.address
  let marked := (image.symbol? symbolName).bind (accept? image forced .symbol)
  (named.or marked).or (image.fileBackedSections.findSome? (scanSection? image forced))

/-- Finds the table. A release given from outside settles the layout. -/
def locate (image : Image) (release : Option String) : Except Error Location := do
  let forced ← match release with
    | some name => some <$> Layout.ofRelease name
    | none => pure none
  match locate? image forced with
  | some location =>
    checkAddress location.va
    return location
  | none => throw .unknownVersion

end GoImage.FunctionTable
