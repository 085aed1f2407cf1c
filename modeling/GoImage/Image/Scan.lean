import GoImage.Image.Basic

/-!
Looking through the content of sections at aligned addresses, lowest first.
-/

namespace GoImage

/-- The positions in `size` bytes at `address` that have `width` bytes behind them and whose
address is a multiple of `alignment`, ascending. -/
def alignedOffsets (alignment width address size : Nat) : List Nat :=
  (List.range (size + 1 - width)).filter fun pos => (address + pos) % alignment = 0

theorem mem_alignedOffsets {alignment width address size pos : Nat} :
    pos ∈ alignedOffsets alignment width address size ↔
      (address + pos) % alignment = 0 ∧ pos + width ≤ size := by
  simp only [alignedOffsets, List.mem_filter, List.mem_range, decide_eq_true_eq]
  omega

theorem pairwise_alignedOffsets (alignment width address size : Nat) :
    (alignedOffsets alignment width address size).Pairwise (· < ·) :=
  List.pairwise_lt_range.filter _

namespace Image

/-- Tries every aligned position of a section's content. The positions come with the content and
with their address, which may lie behind the last one. -/
def scanSection? {α : Type} (image : Image) (alignment width : Nat)
    (f : (content : ByteArray) → (pos va : Nat) → Option α) (s : Section) : Option α :=
  match image.content s with
  | .error _ => none
  | .ok content =>
    (alignedOffsets alignment width s.address content.size).findSome? fun pos =>
      f content pos (s.address + pos)

/-- The sections that the file holds content for. -/
def fileBackedSections (image : Image) : List Section :=
  image.sections.filter (·.isFileBacked)

/-- The first section of each of the preferred names, then every other writable section that the
file holds content for. -/
def sectionsByPreference (image : Image) (names : List String) : List Section :=
  names.filterMap image.sectionNamed? ++
    image.sections.filter fun s => s.writable && s.isFileBacked && !names.contains s.name

end Image
end GoImage
