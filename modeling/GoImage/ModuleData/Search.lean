import GoImage.Image.Scan
import GoImage.ModuleData.Basic

/-!
Finding the module record: by its symbol, or as the record in writable data that points back at
the function table.
-/

namespace GoImage.ModuleData

open FunctionTable (Header)

/-- How a record was found. -/
inductive Method
  | symbol
  | scan
deriving Repr, DecidableEq

def symbolName : String :=
  "runtime.firstmoduledata"

/-- Sections where the linker puts the record. -/
def preferredSections : List String :=
  [".noptrdata", "__noptrdata", ".data", "__data"]

def ofSymbol (image : Image) (header : Header) : Except Error ModuleData := do
  match image.symbol? symbolName with
  | none => throw .moduleDataNotFound
  | some va =>
    let m ← read image va header.layout
    if isValid image header m then return m else throw .moduleDataNotFound

/-- The record at an address, if it can be read and passes every check. -/
def validAt? (image : Image) (header : Header) (va : Nat) : Option ModuleData :=
  match read image va header.layout with
  | .ok m => if isValid image header m then some m else none
  | .error _ => none

/-- What a scan answers where it has seen the address of the function table, if it goes no further:
the valid record there. -/
def answerAt? (image : Image) (header : Header) (va : Nat) : Option (Except Error ModuleData) :=
  match checkAddress va with
  | .ok () => (validAt? image header va).map .ok
  | .error e => some (.error e)

/-- The first answer in a section's content at a word that is the address of the function table. -/
def scanSection? (image : Image) (header : Header) (s : Section) :
    Option (Except Error ModuleData) :=
  let width := image.pointerSize.bytes
  image.scanSection? width width (fun content pos va =>
    match image.order.readWord width content pos with
    | .ok word => if word = header.va then answerAt? image header va else none
    | .error _ => none) s

def scan (image : Image) (header : Header) : Except Error ModuleData :=
  match (image.sectionsByPreference preferredSections).findSome? (scanSection? image header) with
  | some answer => answer
  | none => .error .moduleDataNotFound

/-- The record named by the symbol, or else the one found by looking. -/
def locate (image : Image) (header : Header) : Except Error (ModuleData × Method) :=
  match ofSymbol image header with
  | .ok m => .ok (m, .symbol)
  | .error _ =>
    match scan image header with
    | .ok m => .ok (m, .scan)
    | .error e => .error e

end GoImage.ModuleData
