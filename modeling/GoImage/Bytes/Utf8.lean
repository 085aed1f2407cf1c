/-!
UTF-8 text in bytes. Strict reading reports where the bytes stop being text; lossy reading puts
one replacement character for each maximal broken sequence.
-/

namespace GoImage.Utf8

/-- Where bytes stop being UTF-8. -/
structure Fault where
  /-- Length in bytes of the longest valid beginning. -/
  validUpTo : Nat
  /-- Length of the broken sequence; `none` if the bytes end inside a so far valid one. -/
  width : Option Nat
deriving Repr, DecidableEq

/-- Continuation bytes that follow a leading byte, with the range of the first of them. -/
structure Lead where
  count : Nat
  low : UInt8
  high : UInt8
deriving Repr, DecidableEq

/-- The well-formed sequences: no overlong form, no surrogate, nothing above U+10FFFF. -/
def Lead.of? (b : UInt8) : Option Lead :=
  if b < 0x80 then some ⟨0, 0x80, 0xbf⟩
  else if b < 0xc2 then none
  else if b < 0xe0 then some ⟨1, 0x80, 0xbf⟩
  else if b = 0xe0 then some ⟨2, 0xa0, 0xbf⟩
  else if b = 0xed then some ⟨2, 0x80, 0x9f⟩
  else if b < 0xf0 then some ⟨2, 0x80, 0xbf⟩
  else if b = 0xf0 then some ⟨3, 0x90, 0xbf⟩
  else if b < 0xf4 then some ⟨3, 0x80, 0xbf⟩
  else if b = 0xf4 then some ⟨3, 0x80, 0x8f⟩
  else none

/-- Matches continuation bytes after `seen` bytes of a sequence, the first of them within
`low` and `high`. The result is the length of the sequence up to a byte that does not fit. -/
def matched (count : Nat) (low high : UInt8) (seen : Nat) : List UInt8 → Option Nat
  | [] => if count = 0 then some seen else none
  | b :: rest =>
    match count with
    | 0 => some seen
    | count + 1 =>
      if low ≤ b ∧ b ≤ high then matched count 0x80 0xbf (seen + 1) rest else some seen

/-- Length of the broken sequence at the head of the bytes; `none` if they end inside it. -/
def brokenWidth : List UInt8 → Option Nat
  | [] => none
  | b :: rest =>
    match Lead.of? b with
    | none => some 1
    | some lead => matched lead.count lead.low lead.high 1 rest

/-- Where the first sequence at or after `i` starts that is no character. -/
def validUpTo (data : ByteArray) (i : Nat) : Nat :=
  match _h : data.utf8DecodeChar? i with
  | some c => validUpTo data (i + c.utf8Size)
  | none => i
termination_by data.size - i
decreasing_by
  have hi := ByteArray.lt_size_of_isSome_utf8DecodeChar?
    (_h ▸ rfl : (data.utf8DecodeChar? i).isSome)
  have hc := c.utf8Size_pos
  omega

def fault (data : ByteArray) : Fault :=
  let stop := validUpTo data 0
  ⟨stop, brokenWidth (data.extract stop data.size).data.toList⟩

/-- The text that the bytes hold, or where they fail to hold any. -/
def decode (data : ByteArray) : Except Fault String :=
  match String.fromUTF8? data with
  | some text => .ok text
  | none => .error (fault data)

/-- The characters from `i` on, with U+FFFD for each maximal broken sequence. -/
def lossyChars (data : ByteArray) (i : Nat) : List Char :=
  if _hi : i < data.size then
    match data.utf8DecodeChar? i with
    | some c => c :: lossyChars data (i + c.utf8Size)
    | none =>
      match brokenWidth (data.extract i data.size).data.toList with
      | some width => '\uFFFD' :: lossyChars data (i + max width 1)
      | none => ['\uFFFD']
  else []
termination_by data.size - i
decreasing_by
  · have hc := c.utf8Size_pos
    omega
  · omega

def lossy (data : ByteArray) : String :=
  String.ofList (lossyChars data 0)

end GoImage.Utf8
