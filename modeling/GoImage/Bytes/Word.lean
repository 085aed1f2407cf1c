import GoImage.Error

/-!
Fixed-width integers in bytes, in either byte order. Every read checks that the bytes are there.
-/

namespace GoImage

/-- Addresses and sizes have 64 bits, and are counted modulo this. -/
def wordModulus : Nat := 0x10000000000000000

/-- A sum that starts again from zero behind the last address. -/
def wrap (n : Nat) : Nat := n % wordModulus

/-- A sum that has to be an address. Behind the last address the run is aborted. -/
def checkAddress (va : Nat) : Except Error Unit :=
  if va < wordModulus then .ok () else .error .aborted

theorem checkAddress_eq_ok_iff {va : Nat} : checkAddress va = .ok () ↔ va < wordModulus := by
  unfold checkAddress
  split <;> simp [*]

theorem checkAddress_eq_error_iff {va : Nat} {e : Error} :
    checkAddress va = .error e ↔ e = .aborted ∧ wordModulus ≤ va := by
  unfold checkAddress
  split
  · simp [*]
  · simp_all [eq_comm]

inductive ByteOrder
  | little
  | big
deriving Repr, DecidableEq

/-- The number that bytes denote, least significant byte first. -/
def littleEndian : List UInt8 → Nat
  | [] => 0
  | b :: rest => b.toNat + 256 * littleEndian rest

/-- The low bytes of a number, least significant byte first. -/
def littleEndianBytes : (width : Nat) → Nat → List UInt8
  | 0, _ => []
  | width + 1, n => UInt8.ofNat n :: littleEndianBytes width (n / 256)

@[simp]
theorem length_littleEndianBytes (width n : Nat) : (littleEndianBytes width n).length = width := by
  induction width generalizing n with
  | zero => rfl
  | succ width ih => simp [littleEndianBytes, ih]

namespace ByteOrder

def decode : ByteOrder → List UInt8 → Nat
  | little, bytes => littleEndian bytes
  | big, bytes => littleEndian bytes.reverse

def encode (order : ByteOrder) (width n : Nat) : List UInt8 :=
  match order with
  | little => littleEndianBytes width n
  | big => (littleEndianBytes width n).reverse

/-- The unsigned number in the `width` bytes at `offset`. -/
def readWord (order : ByteOrder) (width : Nat) (data : ByteArray) (offset : Nat) :
    Except Error Nat :=
  if offset + width ≤ data.size then
    .ok (order.decode (data.extract offset (offset + width)).data.toList)
  else .error .outOfBounds

@[simp]
theorem length_encode (order : ByteOrder) (width n : Nat) :
    (order.encode width n).length = width := by
  cases order <;> simp [encode, length_littleEndianBytes]

end ByteOrder

/-- Width in bytes of an address of the target. -/
inductive PointerSize
  | four
  | eight
deriving Repr, DecidableEq

namespace PointerSize

def bytes : PointerSize → Nat
  | four => 4
  | eight => 8

def ofBytes? : Nat → Option PointerSize
  | 4 => some four
  | 8 => some eight
  | _ => none

@[simp]
theorem ofBytes?_bytes (size : PointerSize) : ofBytes? size.bytes = some size := by
  cases size <;> rfl

theorem bytes_of_ofBytes? {n : Nat} {size : PointerSize} (h : ofBytes? n = some size) :
    size.bytes = n := by
  unfold ofBytes? at h
  split at h <;> cases h <;> rfl

end PointerSize

/-- An integer type of fixed width. -/
structure IntType where
  width : Nat
  signed : Bool
deriving Repr, DecidableEq

namespace IntType

def u8 : IntType := ⟨1, false⟩
def i8 : IntType := ⟨1, true⟩
def u16 : IntType := ⟨2, false⟩
def i16 : IntType := ⟨2, true⟩
def u32 : IntType := ⟨4, false⟩
def i32 : IntType := ⟨4, true⟩
def u64 : IntType := ⟨8, false⟩
def i64 : IntType := ⟨8, true⟩

/-- Two's complement for signed types. -/
def ofWord (type : IntType) (word : Nat) : Int :=
  if type.signed then Int.bmod word (1 <<< (8 * type.width)) else word

end IntType
end GoImage
