import GoImage.Image.Scan
import GoImage.Proofs.Image.Load
import Mathlib.Data.List.Pairwise
import Mathlib.Data.List.Sort

/-! # Scans and reads by address

A scan takes the content of a section as it comes, and a read by address goes to the first section
there. They see the same bytes where no other section stands in front of the scanned one. -/

namespace GoImage

theorem findSome?_eq_some_of_unique {α β : Type} {l : List α} {f : α → Option β} {a : α}
    {b : β} (ha : a ∈ l) (hf : f a = some b) (hunique : ∀ a' ∈ l, ∀ b', f a' = some b' → b' = b) :
    l.findSome? f = some b := by
  cases hfound : l.findSome? f with
  | none =>
      have hnone := List.findSome?_eq_none_iff.1 hfound a ha
      rw [hf] at hnone
      cases hnone
  | some b' =>
      obtain ⟨a', ha', hb'⟩ := List.exists_of_findSome?_eq_some hfound
      rw [hunique a' ha' b' hb']

theorem findSome?_congr {α β : Type} {l : List α} {f g : α → Option β}
    (h : ∀ a ∈ l, f a = g a) : l.findSome? f = l.findSome? g := by
  induction l with
  | nil => rfl
  | cons a l ih =>
      obtain ⟨ha, hl⟩ := List.forall_mem_cons.1 h
      rw [List.findSome?_cons, List.findSome?_cons, ha, ih hl]

/-- Entries at which nothing is found can be left out beforehand. -/
theorem findSome?_filter_of_none {α β : Type} {l : List α} {p : α → Bool} {f : α → Option β}
    (h : ∀ a ∈ l, p a = false → f a = none) : (l.filter p).findSome? f = l.findSome? f := by
  induction l with
  | nil => rfl
  | cons a l ih =>
      obtain ⟨ha, hl⟩ := List.forall_mem_cons.1 h
      cases hp : p a with
      | true => rw [List.filter_cons_of_pos hp, List.findSome?_cons, List.findSome?_cons, ih hl]
      | false => rw [List.filter_cons_of_neg (by simp [hp]), List.findSome?_cons, ha hp, ih hl]

theorem findSome?_flatMap {α β γ : Type} (l : List α) (g : α → List β) (f : β → Option γ) :
    (l.flatMap g).findSome? f = l.findSome? fun a => (g a).findSome? f := by
  induction l with
  | nil => rfl
  | cons a l ih =>
      rw [List.flatMap_cons, List.findSome?_append, List.findSome?_cons, ih]
      cases (g a).findSome? f <;> rfl

theorem find?_eq_some_of_pairwise {α : Type} {p : α → Bool} {l : List α} {a : α}
    (h : l.Pairwise fun a b => ¬ (p a = true ∧ p b = true)) (ha : a ∈ l) (hp : p a = true) :
    l.find? p = some a := by
  induction l with
  | nil => exact absurd ha List.not_mem_nil
  | cons b l ih =>
      obtain ⟨hb, hl⟩ := List.pairwise_cons.1 h
      rcases List.mem_cons.1 ha with rfl | ha
      · exact List.find?_cons_of_pos hp
      · have hpb : ¬ p b = true := fun hpb => hb a ha ⟨hpb, hp⟩
        rw [List.find?_cons_of_neg hpb]
        exact ih hl ha

/-- The positions with room behind them among all positions. -/
theorem alignedOffsets_eq_filter (alignment address size : Nat) {width : Nat}
    (hwidth : 0 < width) :
    alignedOffsets alignment width address size =
      (alignedOffsets alignment 1 address size).filter (fun pos => pos + width ≤ size) := by
  apply List.Pairwise.eq_of_mem_iff (r := (· < ·))
  · exact pairwise_alignedOffsets _ _ _ _
  · exact (pairwise_alignedOffsets _ _ _ _).filter _
  · intro pos
    rw [List.mem_filter, mem_alignedOffsets, mem_alignedOffsets, decide_eq_true_eq]
    constructor
    · rintro ⟨haligned, hroom⟩
      exact ⟨⟨haligned, by omega⟩, hroom⟩
    · rintro ⟨⟨haligned, -⟩, hroom⟩
      exact ⟨haligned, hroom⟩

namespace Image

variable {image : Image} {s t : Section} {content : ByteArray} {va : Nat}

/-! ## What a scan finds -/

theorem scanSection?_of_content {α : Type} {alignment width : Nat}
    {f : ByteArray → Nat → Nat → Option α} (h : image.content s = .ok content) :
    image.scanSection? alignment width f s =
      (alignedOffsets alignment width s.address content.size).findSome? fun pos =>
        f content pos (s.address + pos) := by
  unfold scanSection?
  rw [h]

/-- What is found stands in the content of the section, at an aligned address. -/
theorem exists_of_scanSection? {α : Type} {alignment width : Nat}
    {f : ByteArray → Nat → Nat → Option α} {a : α}
    (h : image.scanSection? alignment width f s = some a) :
    ∃ content pos, image.content s = .ok content ∧ (s.address + pos) % alignment = 0 ∧
      pos + width ≤ content.size ∧ f content pos (s.address + pos) = some a := by
  cases hcontent : image.content s with
  | error e =>
      unfold scanSection? at h
      rw [hcontent] at h
      cases h
  | ok content =>
      rw [scanSection?_of_content hcontent] at h
      obtain ⟨pos, hpos, hfound⟩ := List.exists_of_findSome?_eq_some h
      obtain ⟨haligned, hwidth⟩ := mem_alignedOffsets.1 hpos
      exact ⟨content, pos, rfl, haligned, hwidth, hfound⟩

/-- The first of the positions at which anything is found decides. -/
theorem scanSection?_of_first {α : Type} {alignment width pos : Nat}
    {f : ByteArray → Nat → Nat → Option α} {a : α} (hcontent : image.content s = .ok content)
    (haligned : (s.address + pos) % alignment = 0) (hwidth : pos + width ≤ content.size)
    (hf : f content pos (s.address + pos) = some a)
    (hfirst : ∀ pos' < pos, (s.address + pos') % alignment = 0 →
      f content pos' (s.address + pos') = none) :
    image.scanSection? alignment width f s = some a := by
  obtain ⟨before, after, hoffsets⟩ :=
    List.append_of_mem (mem_alignedOffsets.2 ⟨haligned, hwidth⟩)
  have hsorted := pairwise_alignedOffsets alignment width s.address content.size
  have hbefore : ∀ pos' ∈ before, f content pos' (s.address + pos') = none := by
    intro pos' hpos'
    have hmem : pos' ∈ alignedOffsets alignment width s.address content.size := by
      rw [hoffsets]
      exact List.mem_append_left _ hpos'
    rw [hoffsets] at hsorted
    have hlt := (List.pairwise_append.1 hsorted).2.2 pos' hpos' pos List.mem_cons_self
    exact hfirst pos' hlt (mem_alignedOffsets.1 hmem).1
  rw [scanSection?_of_content hcontent, hoffsets, List.findSome?_append,
    List.findSome?_eq_none_iff.2 hbefore, Option.none_or, List.findSome?_cons, hf]

/-- What stands at the start of a section is found first. -/
theorem scanSection?_of_start {α : Type} {alignment width : Nat}
    {f : ByteArray → Nat → Nat → Option α} {a : α} (hcontent : image.content s = .ok content)
    (haligned : s.address % alignment = 0) (hwidth : width ≤ content.size)
    (hf : f content 0 s.address = some a) :
    image.scanSection? alignment width f s = some a :=
  scanSection?_of_first hcontent haligned (by omega) hf fun pos' hpos' => by omega

/-! ## Sections with content -/

theorem mem_fileBackedSections :
    s ∈ image.fileBackedSections ↔ s ∈ image.sections ∧ s.isFileBacked = true :=
  List.mem_filter

theorem isFileBacked_of_content (h : image.content s = .ok content) (hsize : 0 < content.size) :
    s.isFileBacked = true := by
  cases hbacked : s.isFileBacked with
  | true => rfl
  | false =>
      unfold Image.content at h
      rw [if_neg (by simp [hbacked])] at h
      cases h
      exact absurd hsize (Nat.lt_irrefl 0)

theorem mem_of_mem_sectionsByPreference {names : List String}
    (h : s ∈ image.sectionsByPreference names) : s ∈ image.sections := by
  unfold sectionsByPreference at h
  rw [List.mem_append, List.mem_filterMap] at h
  rcases h with ⟨name, -, hs⟩ | hs
  · exact List.mem_of_find?_eq_some hs
  · exact (List.mem_filter.1 hs).1

/-- A writable section with content is looked through unless an earlier one has its name, where the
name is a preferred one. -/
theorem mem_sectionsByPreference {names : List String} (hs : s ∈ image.fileBackedSections)
    (hwritable : s.writable = true) :
    s ∈ image.sectionsByPreference names ↔
      (s.name ∈ names → image.sectionNamed? s.name = some s) := by
  obtain ⟨hmem, hbacked⟩ := mem_fileBackedSections.1 hs
  unfold sectionsByPreference
  rw [List.mem_append, List.mem_filterMap, List.mem_filter]
  constructor
  · rintro (⟨name, hname, hs⟩ | ⟨-, hs⟩) hpreferred
    · have heq : s.name = name := by simpa using List.find?_some hs
      rw [heq]
      exact hs
    · simp [hpreferred] at hs
  · intro h
    by_cases hpreferred : s.name ∈ names
    · exact .inl ⟨s.name, hpreferred, h hpreferred⟩
    · exact .inr ⟨hmem, by simp [hwritable, hbacked, hpreferred]⟩

/-! ## Sections apart from each other -/

/-- No two sections have content at one address, and none goes beyond the last address. -/
structure Disjoint (image : Image) : Prop where
  apart : image.fileBackedSections.Pairwise fun s t =>
    ∀ va, ¬ (s.holds va = true ∧ t.holds va = true)
  bounded : ∀ s ∈ image.fileBackedSections, s.address + s.fileSize ≤ wordModulus

theorem Disjoint.eq_of_holds (h : image.Disjoint) (hs : s ∈ image.fileBackedSections)
    (ht : t ∈ image.fileBackedSections) (hva : s.holds va = true) (hva' : t.holds va = true) :
    s = t := by
  by_contra hne
  have : Std.Symm fun s t : Section => ∀ va, ¬ (s.holds va = true ∧ t.holds va = true) :=
    ⟨fun s t hst va hva => hst va hva.symm⟩
  exact h.apart.forall hs ht hne va ⟨hva, hva'⟩

/-- In a loaded image whose sections are disjoint, reads go to the only section with content
there. -/
theorem Disjoint.sectionHolding?_eq {data : ByteArray} (h : image.Disjoint)
    (hload : Image.ofBytes data = .ok image) (hs : s ∈ image.fileBackedSections)
    (hholds : s.holds va = true) : image.sectionHolding? va = some s := by
  obtain ⟨hmem, -⟩ := mem_fileBackedSections.1 hs
  cases hfirst : image.sectionHolding? va with
  | none =>
      have hnone := List.find?_eq_none.1 hfirst s hmem
      exact absurd hholds hnone
  | some t =>
      obtain ⟨hmem', hholds'⟩ := holds_of_sectionHolding? hfirst
      have hsize : 0 < t.fileSize := by
        rw [Section.holds_iff] at hholds'
        omega
      have ht := mem_fileBackedSections.2 ⟨hmem', isFileBacked_of_mem hload hmem' hsize⟩
      rw [h.eq_of_holds hs ht hholds hholds']

/-- What a scan looks at is what a read at its address gives, where the scanned section is the first
one at this address. -/
theorem bytesFrom_of_scanned {pos : Nat}
    (hfirst : image.sectionHolding? (s.address + pos) = some s)
    (hcontent : image.content s = .ok content) (hpos : pos < content.size) :
    image.bytesFrom (s.address + pos) = .ok (content.extract pos content.size) := by
  rw [bytesFrom_eq hfirst hcontent (by omega), Nat.add_sub_cancel_left]

end Image

end GoImage
