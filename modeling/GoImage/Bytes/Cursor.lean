import GoImage.Bytes.Word

/-!
Positions in bytes: a cursor with what reads pick up from it, and looking at bytes in place.
-/

namespace GoImage

/-- Bytes with a position, and the byte order and pointer width that reads pick up. -/
structure Cursor where
  data : ByteArray
  pos : Nat := 0
  order : ByteOrder := .little
  pointerSize : Nat := 8

namespace Cursor

def remaining (c : Cursor) : Nat :=
  c.data.size - c.pos

def atEnd (c : Cursor) : Bool :=
  c.data.size ≤ c.pos

/-- The position `n` bytes further on, if the data reach that far. -/
def endOf (c : Cursor) (n : Nat) : Except Error Nat :=
  if c.pos + n ≤ c.data.size then .ok (c.pos + n) else .error .outOfBounds

end Cursor

/-- Whether the bytes at `offset` are the given ones. -/
def hasBytes (data : ByteArray) (offset : Nat) (bytes : List UInt8) : Bool :=
  (data.extract offset (offset + bytes.length)).data.toList == bytes

/-- The first position from `i` on that holds a zero byte, or the size of the data. -/
def untilZero (data : ByteArray) (i : Nat) : Nat :=
  if h : i < data.size then
    if data[i] = 0 then i else untilZero data (i + 1)
  else i
termination_by data.size - i

/-- Text from `start` to the next zero byte or the end; `none` if nothing is there or the bytes are
not text. -/
def textAt? (data : ByteArray) (start : Nat) : Option String :=
  if start < data.size then String.fromUTF8? (data.extract start (untilZero data start)) else none

end GoImage
