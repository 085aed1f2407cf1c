import GoImage.FunctionTable.Header

/-!
The source files of a table: an indexed table of offsets at first, one run of texts since.
-/

namespace GoImage.FunctionTable

open Decoder

/-- Up to `count` texts, as long as there are bytes. -/
def texts : (count : Nat) → Decoder (List String)
  | 0 => return []
  | count + 1 => do
    if (← get).atEnd then return []
    let file ← text
    return file :: (← texts count)

/-- Where the first layout keeps the offset of its file table: behind the closing entry, which
has no record. -/
def filesFieldOffset (header : Header) : Nat :=
  (2 * header.functionCount + 1) * header.pointerSize.bytes + header.entriesOffset

/-- The offsets of the file names. The stored count includes an entry that is not used. -/
def fileOffsets : Decoder (List Nat) := do
  let count ← word 4
  if (← get).remaining < 4 * (count - 1) then
    throw (.functionTable (.fileCount count))
  times (word 4) (count - 1)

def files (table : FunctionTable) : Except Error (List String) := do
  let header := table.header
  match header.layout with
  | .go1_2 =>
    let start ← table.decodeAt (filesFieldOffset header) (word 4)
    let offsets ← table.decodeAt start fileOffsets
    offsets.mapM fun offset => table.decodeAt offset text
  | _ => table.decodeAt header.filesOffset (texts header.fileCount)

end GoImage.FunctionTable
