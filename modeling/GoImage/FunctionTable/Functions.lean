import GoImage.FunctionTable.Header

/-!
The functions of a table: entries in the order of their addresses, each ending where the next one
starts, with names from the records that the entries point at.
-/

namespace GoImage.FunctionTable

open Decoder

structure Function where
  start : Nat
  stop : Nat
  name : String
deriving Repr, DecidableEq

/-- The address where a function starts, and where its record is. -/
def entry (layout : Layout) (textStart : Nat) : Decoder (Nat × Nat) := do
  match layout with
  | .go1_2 | .go1_16 =>
    let start ← pointer
    let record ← pointer
    return (start, record)
  | .go1_18 | .go1_20 =>
    let start ← word 4
    let record ← word 4
    return (wrap (textStart + start), record)

/-- What the offsets in entries are relative to. -/
def recordBase (header : Header) : Nat :=
  match header.layout with
  | .go1_2 => 0
  | _ => header.entriesOffset

/-- What the name offsets in records are relative to. -/
def nameBase (header : Header) : Nat :=
  match header.layout with
  | .go1_2 => 0
  | _ => header.namesOffset

def name (table : FunctionTable) (record : Nat) : Except Error String := do
  let header := table.header
  let field := recordBase header + record +
    header.layout.nameFieldOffset header.pointerSize.bytes
  let offset ← table.decodeAt field (int .i32)
  if offset < 0 then throw (.malformed (.negativeNameOffset offset))
  table.decodeAt (nameBase header + offset.toNat) text

/-- Whether the entries, and the one that closes them, lie in the table. -/
def entriesFit (table : FunctionTable) : Bool :=
  let header := table.header
  header.functionCount ≠ 0 &&
    header.entriesOffset + (header.functionCount + 1) * header.entrySize ≤ table.data.size

/-- Pairs each entry with the start of the next. Functions without a readable name are left
out; an entry that starts before the one in front of it is an error. -/
def functionsOf (table : FunctionTable) : List (Nat × Nat) → Except Error (List Function)
  | (start, record) :: (stop, next) :: rest =>
    if stop < start then .error (.functionTable (.descending start stop))
    else
      match functionsOf table ((stop, next) :: rest) with
      | .error e => .error e
      | .ok functions =>
        match name table record with
        | .ok name => .ok (⟨start, stop, name⟩ :: functions)
        | .error _ => .ok functions
  | _ => .ok []

/-- All functions. `fallback` stands in for a start of the code that is not recorded. -/
def functions (table : FunctionTable) (fallback : Nat) : Except Error (List Function) := do
  let header := table.header
  if !table.entriesFit then
    throw (.functionTable (.functionCount header.functionCount table.data.size))
  let textStart := if header.textStart = 0 then fallback else header.textStart
  let entries ← table.decodeAt header.entriesOffset
    (times (entry header.layout textStart) (header.functionCount + 1))
  functionsOf table entries

end GoImage.FunctionTable
