/-!
The kinds of a type descriptor, and the directions of a channel.
-/

namespace GoImage

inductive Kind
  | bool
  | int
  | int8
  | int16
  | int32
  | int64
  | uint
  | uint8
  | uint16
  | uint32
  | uint64
  | uintptr
  | float32
  | float64
  | complex64
  | complex128
  | array
  | chan
  | func
  | interface
  | map
  | pointer
  | slice
  | string
  | struct
  | unsafePointer
  | unknown (raw : Nat)
deriving Repr, DecidableEq

namespace Kind

/-- The kind is the low five bits of its byte. -/
def ofByte (raw : Nat) : Kind :=
  match raw % 32 with
  | 1 => bool
  | 2 => int
  | 3 => int8
  | 4 => int16
  | 5 => int32
  | 6 => int64
  | 7 => uint
  | 8 => uint8
  | 9 => uint16
  | 10 => uint32
  | 11 => uint64
  | 12 => uintptr
  | 13 => float32
  | 14 => float64
  | 15 => complex64
  | 16 => complex128
  | 17 => array
  | 18 => chan
  | 19 => func
  | 20 => interface
  | 21 => map
  | 22 => pointer
  | 23 => slice
  | 24 => string
  | 25 => struct
  | 26 => unsafePointer
  | other => unknown other

def name : Kind → String
  | bool => "Bool"
  | int => "Int"
  | int8 => "Int8"
  | int16 => "Int16"
  | int32 => "Int32"
  | int64 => "Int64"
  | uint => "Uint"
  | uint8 => "Uint8"
  | uint16 => "Uint16"
  | uint32 => "Uint32"
  | uint64 => "Uint64"
  | uintptr => "Uintptr"
  | float32 => "Float32"
  | float64 => "Float64"
  | complex64 => "Complex64"
  | complex128 => "Complex128"
  | array => "Array"
  | chan => "Chan"
  | func => "Func"
  | interface => "Interface"
  | map => "Map"
  | pointer => "Pointer"
  | slice => "Slice"
  | string => "String"
  | struct => "Struct"
  | unsafePointer => "UnsafePointer"
  | unknown raw => s!"Unknown({raw})"

/-- The predeclared name of a kind that has no parts. -/
def builtin? : Kind → Option String
  | bool => some "bool"
  | int => some "int"
  | int8 => some "int8"
  | int16 => some "int16"
  | int32 => some "int32"
  | int64 => some "int64"
  | uint => some "uint"
  | uint8 => some "uint8"
  | uint16 => some "uint16"
  | uint32 => some "uint32"
  | uint64 => some "uint64"
  | uintptr => some "uintptr"
  | float32 => some "float32"
  | float64 => some "float64"
  | complex64 => some "complex64"
  | complex128 => some "complex128"
  | string => some "string"
  | unsafePointer => some "unsafe.Pointer"
  | array | chan | func | interface | map | pointer | slice | struct | unknown _ => none

end Kind

inductive ChanDir
  | recv
  | send
  | both
deriving Repr, DecidableEq

namespace ChanDir

def ofWord? : Nat → Option ChanDir
  | 1 => some recv
  | 2 => some send
  | 3 => some both
  | _ => none

/-- What stands before the element type. -/
def keyword : ChanDir → String
  | recv => "<-chan "
  | send => "chan<- "
  | both => "chan "

end ChanDir
end GoImage
