import GoImage.Image.Basic

/-!
The symbol table of the Common Object File Format. A damaged table counts up to its first
unreadable record.
-/

namespace GoImage.Coff

open Decoder

def recordSize : Nat := 18

structure Record where
  name : String
  value : Nat
  /-- The section that the value is relative to, counted from one. -/
  sectionNumber : Int
  /-- Records behind this one that only add to it. -/
  auxiliary : Nat
deriving Repr, DecidableEq

/-- A name of up to eight bytes in place, or behind four zero bytes an offset into the strings. -/
def name (strings : ByteArray) : Decoder String := do
  let field ← take 8
  if (field.extract 0 4).data.toList = [0, 0, 0, 0] then
    let offset ← ofExcept (ByteOrder.little.readWord 4 field 4)
    ofExcept ((do seek offset; text : Decoder String).on { data := strings })
  else
    return Utf8.lossy (field.extract 0 (untilZero field 0))

def record (strings : ByteArray) : Decoder Record := do
  let name ← name strings
  let value ← word 4
  let sectionNumber ← int .i16
  skip 3
  let auxiliary ← word 1
  return { name, value, sectionNumber, auxiliary }

/-- Where a record's symbol lies; `none` for a record without a name or a section. -/
def Record.symbol? (r : Record) (sections : List Section) : Option (String × Nat) :=
  if r.sectionNumber ≤ 0 ∨ r.name = "" then none
  else
    (sections[r.sectionNumber.toNat - 1]?).map fun s => (r.name, s.address + r.value)

/-- A table of records in a file, with the strings behind it. -/
structure Table where
  data : ByteArray
  offset : Nat
  count : Nat

namespace Table

def strings (table : Table) : ByteArray :=
  table.data.extract (table.offset + recordSize * table.count) table.data.size

def record? (table : Table) (index : Nat) : Option Record :=
  let decoder : Decoder Record := do
    seek (table.offset + recordSize * index)
    record table.strings
  (decoder.on { data := table.data }).toOption

/-- The readable records from `index` on, auxiliary records left out. -/
def recordsFrom (table : Table) (index : Nat) : List Record :=
  if index < table.count then
    match table.record? index with
    | some r => r :: recordsFrom table (index + 1 + r.auxiliary)
    | none => []
  else []
termination_by table.count - index

/-- All readable records. A table at offset zero is no table. -/
def records (table : Table) : List Record :=
  if table.offset = 0 then [] else table.recordsFrom 0

/-- Where the symbols of all records lie, which has to be at addresses. -/
def symbols (table : Table) (sections : List Section) : Except Error Symbols := do
  let symbols := table.records.filterMap (·.symbol? sections)
  symbols.forM fun symbol => checkAddress symbol.2
  return symbols

end Table
end GoImage.Coff
