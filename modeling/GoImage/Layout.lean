/-!
The four revisions of the runtime tables, with the constants by which they differ.
-/

namespace GoImage

/-- A revision of the runtime tables, named for the first release that writes it. -/
inductive Layout
  | go1_2
  | go1_16
  | go1_18
  | go1_20
deriving Repr, DecidableEq

/-- Where the module record keeps its fields, in words from its start. A slice takes three words;
the end of the range of addresses, of the code and of the types follows its start. -/
structure ModuleWords where
  ftab : Nat
  filetab : Nat
  minpc : Nat
  text : Nat
  types : Nat
  typelinks : Nat
  itablinks : Nat
deriving Repr, DecidableEq

/-- Words that must be present for every field to be read. -/
def ModuleWords.count (words : ModuleWords) : Nat :=
  words.itablinks + 3

namespace Layout

def all : List Layout :=
  [go1_2, go1_16, go1_18, go1_20]

/-- The release that introduced the layout. -/
def name : Layout → String
  | go1_2 => "1.2"
  | go1_16 => "1.16"
  | go1_18 => "1.18"
  | go1_20 => "1.20"

def magic : Layout → Nat
  | go1_2 => 0xFFFFFFFB
  | go1_16 => 0xFFFFFFFA
  | go1_18 => 0xFFFFFFF0
  | go1_20 => 0xFFFFFFF1

def ofMagic? (magic : Nat) : Option Layout :=
  all.find? (·.magic = magic)

/-- The layout of the minor release `n`; none before 9. -/
def ofMinor? (n : Nat) : Option Layout :=
  if n < 9 then none
  else if n < 16 then some go1_2
  else if n < 18 then some go1_16
  else if n < 20 then some go1_18
  else some go1_20

/-- Start of the function entries, where the header does not state it. -/
def fixedEntriesOffset? (layout : Layout) (pointerSize : Nat) : Option Nat :=
  match layout with
  | go1_2 => some (8 + pointerSize)
  | _ => none

/-- Size of a function entry: two addresses, or two offsets of four bytes. -/
def entrySize (layout : Layout) (pointerSize : Nat) : Nat :=
  match layout with
  | go1_2 | go1_16 => 2 * pointerSize
  | go1_18 | go1_20 => 8

/-- Where a function record keeps the offset of its name. -/
def nameFieldOffset (layout : Layout) (pointerSize : Nat) : Nat :=
  match layout with
  | go1_2 | go1_16 => pointerSize
  | go1_18 | go1_20 => 4

/-- Element size of the slice of the file table in the module record. -/
def fileEntrySize : Layout → Nat
  | go1_2 => 4
  | _ => 1

def moduleWords : Layout → ModuleWords
  | go1_2 => ⟨3, 6, 10, 12, 25, 30, 33⟩
  | go1_16 => ⟨16, 7, 20, 22, 35, 40, 43⟩
  | go1_18 => ⟨16, 7, 20, 22, 35, 42, 45⟩
  | go1_20 => ⟨16, 7, 20, 22, 37, 44, 47⟩

@[simp]
theorem ofMagic?_magic (layout : Layout) : ofMagic? layout.magic = some layout := by
  cases layout <;> rfl

theorem magic_of_ofMagic? {magic : Nat} {layout : Layout} (h : ofMagic? magic = some layout) :
    layout.magic = magic := by
  simpa using List.find?_some h

end Layout
end GoImage
