import GoImage.TypeInfo.Kind

/-!
Type descriptors: what the runtime knows about a type, with the types it is made of given by
address.
-/

namespace GoImage

structure Field where
  name : String
  type : Nat
  offset : Nat
  embedded : Bool
  tag : Option String
deriving Repr, DecidableEq

structure Method where
  name : String
  type : Option Nat
deriving Repr, DecidableEq

/-- How a type is made of others. -/
inductive Shape
  | basic
  | array (elem length : Nat)
  | chan (elem : Nat) (dir : ChanDir)
  | func (params results : List Nat) (variadic : Bool)
  | interface (methods : List Method)
  | map (key elem : Nat)
  | pointer (elem : Nat)
  | slice (elem : Nat)
  | struct (fields : List Field)
deriving Repr, DecidableEq

/-- The addresses of the types that a shape mentions, in order. -/
def Shape.children : Shape → List Nat
  | basic => []
  | array elem _ | chan elem _ | pointer elem | slice elem => [elem]
  | map key elem => [key, elem]
  | func params results _ => params ++ results
  | interface methods => methods.filterMap (·.type)
  | struct fields => fields.map (·.type)

structure Descriptor where
  va : Nat
  size : Nat
  hash : Nat
  flags : Nat
  kind : Kind
  name : String
  shape : Shape
deriving Repr, DecidableEq

namespace Descriptor

/-- The flags with a meaning; the upper bits of their byte have none. -/
def knownFlags (flags : Nat) : Nat :=
  flags % 0x10

/-- Whether the descriptor is followed by a block on methods and package. -/
def hasUncommon (flags : Nat) : Bool :=
  flags.testBit 0

/-- Whether the stored name has a star in front that is not part of it. -/
def hasExtraStar (flags : Nat) : Bool :=
  flags.testBit 1

def isNamed (d : Descriptor) : Bool :=
  d.flags.testBit 2 && d.name ≠ ""

end Descriptor
end GoImage
