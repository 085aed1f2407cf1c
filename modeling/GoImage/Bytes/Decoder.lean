import GoImage.Bytes.Cursor

/-!
Reading bytes from front to back. A decoder moves a cursor and keeps it when it fails, so the
position after a failure is part of its answer.
-/

namespace GoImage

/-- Base-128 groups, least significant first, all but the last with the top bit set. The value
and the count of bytes read; a value of 64 bits or more is refused at its tenth byte. -/
def varintGroups (shift : Nat) : List UInt8 → Except Error Nat × Nat
  | [] => (.error .outOfBounds, 0)
  | b :: rest =>
    if shift = 63 ∧ 1 < b then (.error (.malformed .varintOverflow), 1)
    else if b < 0x80 then (.ok (b.toNat <<< shift), 1)
    else
      let (value, count) := varintGroups (shift + 7) rest
      (value.map ((b.toNat - 0x80) <<< shift + ·), count + 1)

abbrev Decoder := EStateM Error Cursor

namespace Decoder

/-- The answer of a decoder, without the position it ends at. -/
def on {α : Type} (decoder : Decoder α) (c : Cursor) : Except Error α :=
  match decoder.run c with
  | .ok a _ => .ok a
  | .error e _ => .error e

def moveTo (pos : Nat) : Decoder Unit :=
  modify fun c => { c with pos }

def seek (pos : Nat) : Decoder Unit := do
  if (← get).data.size < pos then throw .outOfBounds
  moveTo pos

def skip (n : Nat) : Decoder Unit := do
  moveTo (← ofExcept ((← get).endOf n))

/-- Moves to the next multiple of `alignment`; zero asks for nothing. -/
def align (alignment : Nat) : Decoder Unit := do
  if alignment ≠ 0 then
    skip ((alignment - (← get).pos % alignment) % alignment)

def take (n : Nat) : Decoder ByteArray := do
  let c ← get
  let stop ← ofExcept (c.endOf n)
  moveTo stop
  return c.data.extract c.pos stop

/-- An unsigned number of `width` bytes in the given order. -/
def wordIn (order : ByteOrder) (width : Nat) : Decoder Nat := do
  let c ← get
  let n ← ofExcept (order.readWord width c.data c.pos)
  moveTo (c.pos + width)
  return n

def word (width : Nat) : Decoder Nat := do
  wordIn (← get).order width

def intIn (order : ByteOrder) (type : IntType) : Decoder Int := do
  return type.ofWord (← wordIn order type.width)

def int (type : IntType) : Decoder Int := do
  intIn (← get).order type

def pointer : Decoder Nat := do
  let size := (← get).pointerSize
  match PointerSize.ofBytes? size with
  | some size => word size.bytes
  | none => throw (.malformed (.pointerSize size))

/-- Passes over `n` values as wide as a pointer. -/
def skipPointers (n : Nat) : Decoder Unit := do
  skip (n * (← get).pointerSize)

/-- A variable-length number; a failure has consumed the bytes it looked at. -/
def uvarint : Decoder Nat := do
  let c ← get
  let (value, count) := varintGroups 0 (c.data.extract c.pos (c.pos + 10)).data.toList
  moveTo (c.pos + count)
  ofExcept value

/-- Text up to a zero byte or the end of the data. The position passes the zero byte even if the
bytes before it are not text. -/
def text : Decoder String := do
  let c ← get
  let stop := untilZero c.data c.pos
  moveTo (if stop < c.data.size then stop + 1 else stop)
  match Utf8.decode (c.data.extract c.pos stop) with
  | .ok text => return text
  | .error fault => throw (.malformed (.text c.pos stop fault))

/-- Text in a field of `n` bytes, up to its first zero byte; empty if it is not text. -/
def fixedText (n : Nat) : Decoder String := do
  let field ← take n
  match Utf8.decode (field.extract 0 (untilZero field 0)) with
  | .ok text => return text
  | .error _ => return ""

/-- The same decoder `n` times, one after the other. -/
def times {α : Type} (decoder : Decoder α) : Nat → Decoder (List α)
  | 0 => pure []
  | n + 1 => do
    let a ← decoder
    return a :: (← times decoder n)

theorem run_seek (pos : Nat) (c : Cursor) :
    (seek pos).run c =
      if c.data.size < pos then .error .outOfBounds c else .ok () { c with pos } := by
  by_cases h : c.data.size < pos <;> simp [seek, moveTo, h]

theorem run_skip (n : Nat) (c : Cursor) :
    (skip n).run c =
      if c.pos + n ≤ c.data.size then .ok () { c with pos := c.pos + n }
      else .error .outOfBounds c := by
  by_cases h : c.pos + n ≤ c.data.size <;> simp [skip, moveTo, Cursor.endOf, h] <;> rfl

theorem run_take (n : Nat) (c : Cursor) :
    (take n).run c =
      if c.pos + n ≤ c.data.size then
        .ok (c.data.extract c.pos (c.pos + n)) { c with pos := c.pos + n }
      else .error .outOfBounds c := by
  by_cases h : c.pos + n ≤ c.data.size <;> simp [take, moveTo, Cursor.endOf, h] <;> rfl

theorem run_wordIn (order : ByteOrder) (width : Nat) (c : Cursor) :
    (wordIn order width).run c =
      match order.readWord width c.data c.pos with
      | .ok n => .ok n { c with pos := c.pos + width }
      | .error e => .error e c := by
  cases h : order.readWord width c.data c.pos <;> simp [wordIn, moveTo, h] <;> rfl

theorem run_align {n : Nat} (h : n ≠ 0) (c : Cursor) :
    (align n).run c = (skip ((n - c.pos % n) % n)).run c := by
  simp [align, h]

theorem run_uvarint (c : Cursor) :
    uvarint.run c =
      match varintGroups 0 (c.data.extract c.pos (c.pos + 10)).data.toList with
      | (.ok n, count) => .ok n { c with pos := c.pos + count }
      | (.error e, count) => .error e { c with pos := c.pos + count } := by
  simp only [uvarint, EStateM.run_bind, EStateM.run_get]
  rcases varintGroups 0 (c.data.extract c.pos (c.pos + 10)).data.toList with ⟨_ | _, count⟩ <;> rfl

theorem run_text (c : Cursor) :
    text.run c =
      let stop := untilZero c.data c.pos
      let behind := { c with pos := if stop < c.data.size then stop + 1 else stop }
      match Utf8.decode (c.data.extract c.pos stop) with
      | .ok text => .ok text behind
      | .error fault => .error (.malformed (.text c.pos stop fault)) behind := by
  simp only [text, EStateM.run_bind, EStateM.run_get]
  cases Utf8.decode (c.data.extract c.pos (untilZero c.data c.pos)) <;> rfl

theorem run_pointer (c : Cursor) :
    pointer.run c =
      match PointerSize.ofBytes? c.pointerSize with
      | some size => (wordIn c.order size.bytes).run c
      | none => .error (.malformed (.pointerSize c.pointerSize)) c := by
  simp only [pointer, EStateM.run_bind, EStateM.run_get]
  cases PointerSize.ofBytes? c.pointerSize <;> rfl

end Decoder
end GoImage
