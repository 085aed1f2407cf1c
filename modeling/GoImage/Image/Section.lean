/-!
A range of addresses of an executable, and the part of it that the file holds.
-/

namespace GoImage

structure Section where
  name : String
  address : Nat
  /-- Bytes in memory. -/
  size : Nat
  /-- Where the content starts in the file. -/
  offset : Nat
  /-- Bytes that the file holds. -/
  fileSize : Nat
  executable : Bool
  writable : Bool
  /-- Whether the content comes from the file at all, rather than being filled with zeros. -/
  initialized : Bool
deriving Repr, DecidableEq

namespace Section

/-- Whether an address lies in the section in memory. -/
def contains (s : Section) (va : Nat) : Bool :=
  s.address ≤ va && va - s.address < s.size

/-- Whether an address lies in the part of the section that the file holds. -/
def holds (s : Section) (va : Nat) : Bool :=
  s.address ≤ va && va - s.address < s.fileSize

def isFileBacked (s : Section) : Bool :=
  s.initialized && 0 < s.fileSize

theorem holds_iff {s : Section} {va : Nat} :
    s.holds va = true ↔ s.address ≤ va ∧ va < s.address + s.fileSize := by
  simp only [holds, Bool.and_eq_true, decide_eq_true_eq]
  omega

theorem contains_iff {s : Section} {va : Nat} :
    s.contains va = true ↔ s.address ≤ va ∧ va < s.address + s.size := by
  simp only [contains, Bool.and_eq_true, decide_eq_true_eq]
  omega

end Section
end GoImage
