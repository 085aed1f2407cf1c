import GoImage.Image.Basic

/-!
Headers of Mach-O files of a single architecture: load commands, their segments, and symbols.
-/

namespace GoImage.MachO

open Decoder

structure SectionHeader where
  name : String
  address : Nat
  size : Nat
  offset : Nat
  flags : Nat
deriving Repr, DecidableEq

structure Segment where
  name : String
  address : Nat
  fileOffset : Nat
  /-- Initial protection: 2 to write, 4 to execute. -/
  protection : Nat
  sections : List SectionHeader
deriving Repr, DecidableEq

/-- The load commands that say something about the image. -/
inductive Command
  | segment (segment : Segment)
  | symbolTable (symbols : Symbols)
  | mainEntry (offset : Nat)
  | thread (entry : Nat)
  | other
deriving Repr, DecidableEq

def sectionHeader (width : PointerSize) : Decoder SectionHeader := do
  let name ← fixedText 16
  skip 16
  let address ← pointer
  let size ← pointer
  let offset ← word 4
  skip 12
  let flags ← word 4
  skip (width.bytes + 4)
  return { name, address, size, offset, flags }

/-- The size of a segment command of a file of this width; its sections follow. -/
def segmentSize : PointerSize → Nat
  | .four => 56
  | .eight => 72

/-- A segment command at `start`, with addresses of `width`. Its content must lie in the file; if
the section headers do not, the segment counts as having none. -/
def segmentCommand (width : PointerSize) (start : Nat) : Decoder Segment := do
  let file ← get
  seek (start + 8)
  let name ← fixedText 16
  let address ← word width.bytes
  skip width.bytes
  let fileOffset ← word width.bytes
  let fileSize ← word width.bytes
  skip 4
  let protection ← word 4
  let count ← word 4
  skip 4
  if fileSize ≠ 0 ∧ file.data.size < fileOffset + fileSize then throw .outOfBounds
  let fileWidth ← match PointerSize.ofBytes? file.pointerSize with
    | some fileWidth => pure fileWidth
    | none => throw .outOfBounds
  let headers := (times (sectionHeader fileWidth) count).on
    { file with pos := start + segmentSize fileWidth }
  return { name, address, fileOffset, protection, sections := headers.toOption.getD [] }

/-- A name without the underscore that the linker puts before it. -/
def plainName (name : String) : String :=
  match name.toList with
  | '_' :: rest => String.ofList rest
  | _ => name

/-- The value and the name of a symbol; `none` if it has no value or no readable name. -/
def symbolAt? (file : Cursor) (strings offset : Nat) : Option (String × Nat) := do
  let entry : Decoder (Nat × Nat) := do
    let name ← word 4
    skip 4
    return (name, ← pointer)
  let (nameOffset, value) ← (entry.on { file with pos := offset }).toOption
  let name := plainName (← textAt? file.data (strings + nameOffset))
  if value = 0 ∨ name = "" then none else some (name, value)

/-- The symbols of a symbol table command. The strings may not lie before the entries. -/
def symbolTableCommand (start : Nat) : Decoder Symbols := do
  let file ← get
  seek (start + 8)
  let offset ← word 4
  let count ← word 4
  let strings ← word 4
  skip 4
  if strings < offset ∨ file.data.size ≤ offset then throw .outOfBounds
  let size := 8 + file.pointerSize
  let present := min count ((file.data.size - offset) / size)
  return (List.range present).filterMap fun i => symbolAt? file strings (offset + size * i)

/-- The registers of a thread, of which the command states how many it holds. -/
def threadState (start : Nat) : Decoder (List Nat) := do
  seek (start + 12)
  let count ← word 4
  if 70 < count then throw .outOfBounds
  times (word 4) count

/-- The register that a thread starts from. -/
def threadEntry (cpu : Nat) (state : List Nat) : Except Error Nat :=
  let register (i : Nat) : Nat := state[i]?.getD 0
  match cpu with
  | 7 => .ok (register 10)
  | 0x01000007 => .ok (register 32 + 0x100000000 * register 33)
  | 12 => .ok (register 15)
  | 18 => .ok (register 0)
  | 0x0100000c => .ok (register 64 + 0x100000000 * register 65)
  | _ => .error .outOfBounds

/-- Commands of a known fixed size. -/
def fixedSizes : List (Nat × Nat) := [
  (0x03, 16), (0x06, 20), (0x07, 20), (0x09, 16), (0x0b, 80), (0x0c, 24), (0x0d, 24), (0x0e, 12),
  (0x0f, 12), (0x10, 20), (0x11, 40), (0x12, 12), (0x13, 12), (0x14, 12), (0x15, 12), (0x16, 16),
  (0x17, 12), (0x1a, 72), (0x1b, 24), (0x1d, 16), (0x1e, 16), (0x20, 24), (0x21, 20), (0x22, 48),
  (0x24, 16), (0x25, 16), (0x26, 16), (0x27, 12), (0x29, 16), (0x2a, 16), (0x2b, 16), (0x2c, 24),
  (0x2d, 12), (0x2e, 16), (0x2f, 16), (0x30, 16), (0x31, 40), (0x32, 24), (0x80000018, 24),
  (0x8000001c, 12), (0x8000001f, 24), (0x80000022, 48), (0x80000023, 24), (0x80000033, 16),
  (0x80000034, 16)]

def commandBody (cpu start code : Nat) : Decoder Command := do
  match code with
  | 0x01 => return .segment (← segmentCommand .four start)
  | 0x19 => return .segment (← segmentCommand .eight start)
  | 0x02 => return .symbolTable (← symbolTableCommand start)
  | 0x04 =>
    let _ ← threadState start
    return .other
  | 0x05 => return .thread (← ofExcept (threadEntry cpu (← threadState start)))
  | 0x80000028 =>
    seek (start + 8)
    let offset ← word 8
    skip 8
    return .mainEntry offset
  | code =>
    seek start
    skip ((fixedSizes.lookup code).getD 8)
    return .other

/-- The load commands from `start` on; each states where the next one begins. -/
def commands (cpu : Nat) : (count start : Nat) → Decoder (List Command)
  | 0, _ => return []
  | count + 1, start => do
    seek start
    let code ← word 4
    let size ← word 4
    if (← get).data.size - start < size then throw .outOfBounds
    let command ← commandBody cpu start code
    return command :: (← commands cpu count (start + size))

/-- Content at offset zero or of a zero-filled type is not in the file. -/
def sectionOf (segment : Segment) (header : SectionHeader) : Section :=
  let type := header.flags % 256
  let absent : Bool := type = 0x01 || type = 0x0c || type = 0x12 || header.offset = 0
  { name := header.name
    address := header.address
    size := header.size
    offset := header.offset
    fileSize := if absent then 0 else header.size
    executable := segment.protection.testBit 2 &&
      (header.flags.testBit 31 || header.flags.testBit 10)
    writable := segment.protection.testBit 1
    initialized := !absent }

/-- The entry point: stated as an offset into the text segment, or as a register. -/
def entry (commands : List Command) : Except Error Nat :=
  let main? := commands.findSome? fun
    | .mainEntry offset => some offset
    | _ => none
  let thread? := commands.findSome? fun
    | .thread entry => some entry
    | _ => none
  let text? := commands.findSome? fun
    | .segment s => if s.name = "__TEXT" then some s else none
    | _ => none
  match main?, text? with
  | some offset, some s => .ok (wrap (s.address + (wordModulus - s.fileOffset) + offset))
  | some _, none => .error .outOfBounds
  | none, _ => .ok (thread?.getD 0)

def arch (cpu : Nat) : String :=
  match cpu with
  | 7 => "386"
  | 0x01000007 => "amd64"
  | 12 => "arm"
  | 0x0100000c => "arm64"
  | _ => "unknown"

def headersIn (width : PointerSize) (order : ByteOrder) : Decoder Headers := do
  let size := (← get).data.size
  if size < 32 then throw .outOfBounds
  seek 4
  let cpu ← word 4
  skip 8
  let count ← word 4
  let commandBytes ← word 4
  if commandBytes / 8 < count ∨ size < commandBytes then throw .outOfBounds
  let commands ← commands cpu count (24 + width.bytes)
  let sections := commands.flatMap fun
    | .segment s => s.sections.map (sectionOf s)
    | _ => []
  let symbols := commands.foldl (fun symbols command =>
    match command with
    | .symbolTable table => table
    | _ => symbols) []
  return {
    format := .machO
    sections
    symbols
    entry := ← ofExcept (entry commands)
    pointerSize := width
    order
    arch := arch cpu
    os := "darwin" }

/-- Width and byte order from the magic number, read most significant byte first. -/
def shape? (magic : Nat) : Option (PointerSize × ByteOrder) :=
  match magic with
  | 0xfeedface => some (.four, .big)
  | 0xfeedfacf => some (.eight, .big)
  | 0xcefaedfe => some (.four, .little)
  | 0xcffaedfe => some (.eight, .little)
  | _ => none

def magicShape? (data : ByteArray) : Option (PointerSize × ByteOrder) :=
  match ByteOrder.big.readWord 4 data 0 with
  | .ok magic => shape? magic
  | .error _ => none

def headers (data : ByteArray) : Except Error Headers :=
  match magicShape? data with
  | some (width, order) => (headersIn width order).on { data, order, pointerSize := width.bytes }
  | none => .error .outOfBounds

end GoImage.MachO
