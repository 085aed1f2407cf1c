import GoImage.Proofs.Bytes.Reads
import GoImage.Proofs.FunctionTable.Search

/-! # The search for the function table as a search of candidates

Every place where a table may start is a candidate, and the first one with a header is taken. The
scan looks at fewer places, and at most of them less closely, but passes over no header. -/

namespace GoImage.FunctionTable

variable {image : Image} {order : ByteOrder} {data content : ByteArray} {layout : Layout}
  {location : Location} {s : Section} {pos : Nat}

/-! ## Candidates -/

/-- A place where a table may start, with the bytes from there on. -/
structure Candidate where
  va : Nat
  source : Source
  bytes : ByteArray

/-- A place that has a name is read by its address, if it can be read. -/
def namedCandidates (image : Image) (source : Source) (va : Nat) : List Candidate :=
  match image.bytesFrom va with
  | .error _ => []
  | .ok bytes => [⟨va, source, bytes⟩]

/-- The multiples of four in the content of a section, lowest first. -/
def sectionCandidates (image : Image) (s : Section) : List Candidate :=
  match image.content s with
  | .error _ => []
  | .ok content =>
    ((List.range content.size).filter fun pos => (s.address + pos) % 4 = 0).map fun pos =>
      ⟨s.address + pos, .scan, content.extract pos content.size⟩

/-- All places in the order of looking: the sections of the table, its symbol, and the content of
every section. -/
def candidates (image : Image) : List Candidate :=
  (sectionNames.filterMap image.sectionNamed?).flatMap
      (fun s => namedCandidates image .ofSection s.address) ++
    (image.symbol? symbolName).toList.flatMap (namedCandidates image .symbol) ++
    image.fileBackedSections.flatMap (sectionCandidates image)

/-- Whether the word behind the start of a header, as wide as that says, counts any functions. -/
def CountsAny (order : ByteOrder) (data : ByteArray) : Prop :=
  ∃ size count, data[7]? = some size ∧ order.readWord size.toNat data 8 = .ok count ∧ count ≠ 0

/-- Whether a table of a layout starts at a candidate. One that only its bytes speak for must have
functions. -/
structure Candidate.Shows (order : ByteOrder) (c : Candidate) (layout : Layout) : Prop where
  start : HeaderStart order c.bytes layout
  functions : c.source = .scan → CountsAny order c.bytes

theorem sectionCandidates_of_content (h : image.content s = .ok content) :
    sectionCandidates image s =
      (alignedOffsets 4 1 s.address content.size).map fun pos =>
        ⟨s.address + pos, .scan, content.extract pos content.size⟩ := by
  unfold sectionCandidates
  rw [h]
  rfl

theorem pairwise_sectionCandidates (image : Image) (s : Section) :
    (sectionCandidates image s).Pairwise (·.va < ·.va) := by
  cases hcontent : image.content s with
  | error e => simp [sectionCandidates, hcontent]
  | ok content =>
      rw [sectionCandidates_of_content hcontent, List.pairwise_map]
      exact (pairwise_alignedOffsets _ _ _ _).imp fun h => Nat.add_lt_add_left h s.address

/-- A candidate stands in the content of a section. -/
theorem exists_section_of_mem_candidates {c : Candidate} (h : c ∈ candidates image) :
    ∃ s ∈ image.sections, c.va < s.address + s.fileSize := by
  simp only [candidates, List.mem_append, List.mem_flatMap] at h
  have hnamed : ∀ source va, c ∈ namedCandidates image source va →
      ∃ s ∈ image.sections, c.va < s.address + s.fileSize := by
    intro source va hc
    unfold namedCandidates at hc
    cases hbytes : image.bytesFrom va with
    | error e =>
        rw [hbytes] at hc
        exact absurd hc List.not_mem_nil
    | ok bytes =>
        rw [hbytes] at hc
        obtain rfl := List.mem_singleton.1 hc
        obtain ⟨s, content, hs, -⟩ := Image.exists_of_bytesFrom hbytes
        obtain ⟨hmem, hholds⟩ := Image.holds_of_sectionHolding? hs
        exact ⟨s, hmem, (Section.holds_iff.1 hholds).2⟩
  rcases h with (⟨s, -, hc⟩ | ⟨va, -, hc⟩) | ⟨s, hs, hc⟩
  · exact hnamed _ _ hc
  · exact hnamed _ _ hc
  · obtain ⟨hmem, -⟩ := Image.mem_fileBackedSections.1 hs
    cases hcontent : image.content s with
    | error e => simp [sectionCandidates, hcontent] at hc
    | ok content =>
        rw [sectionCandidates_of_content hcontent] at hc
        obtain ⟨pos, hpos, rfl⟩ := List.mem_map.1 hc
        have hsize := Image.size_content_le hcontent
        have hin := (mem_alignedOffsets.1 hpos).2
        exact ⟨s, hmem, by dsimp only; omega⟩

/-! ## The check of a candidate -/

/-- The table that starts at a candidate. -/
def Candidate.table? (order : ByteOrder) (c : Candidate) : Option Location :=
  match layoutAt? order c.bytes 0 with
  | some layout =>
    if c.source ≠ .scan ∨ countsFunctions order c.bytes 0 = true then some ⟨c.va, layout, c.source⟩
    else none
  | none => none

theorem countsFunctions_iff : countsFunctions order data 0 = true ↔ CountsAny order data := by
  unfold countsFunctions CountsAny
  cases hsize : data[7]? with
  | none => simp
  | some size => cases hcount : order.readWord size.toNat data 8 <;> simp [hcount]

theorem Candidate.table?_eq_some_iff {c : Candidate} :
    c.table? order = some location ↔
      c.Shows order location.layout ∧ location.va = c.va ∧ location.source = c.source := by
  obtain ⟨va, layout, source⟩ := location
  have hshows : c.Shows order layout ↔ layoutAt? order c.bytes 0 = some layout ∧
      (c.source ≠ .scan ∨ countsFunctions order c.bytes 0 = true) := by
    rw [layoutAt?_eq_some_iff, countsFunctions_iff, ← imp_iff_not_or]
    exact ⟨fun h => ⟨h.start, h.functions⟩, fun h => ⟨h.1, h.2⟩⟩
  rw [hshows]
  unfold table?
  cases layoutAt? order c.bytes 0 with
  | none => simp
  | some named =>
      simp only [Option.ite_none_right_eq_some, Option.some.injEq, Location.mk.injEq]
      constructor
      · rintro ⟨hfunctions, rfl, rfl, rfl⟩
        exact ⟨⟨rfl, hfunctions⟩, rfl, rfl⟩
      · rintro ⟨⟨rfl, hfunctions⟩, rfl, rfl⟩
        exact ⟨hfunctions, rfl, rfl, rfl⟩

theorem Candidate.table?_eq_none_iff {c : Candidate} :
    c.table? order = none ↔ ∀ layout, ¬ c.Shows order layout := by
  rw [Option.eq_none_iff_forall_ne_some]
  constructor
  · intro h layout hshows
    exact h ⟨c.va, layout, c.source⟩ (table?_eq_some_iff.2 ⟨hshows, rfl, rfl⟩)
  · intro h location hlocation
    exact h location.layout (table?_eq_some_iff.1 hlocation).1

/-! ## Magic numbers -/

/-- Every magic number starts or ends as the scan expects it, in either byte order. -/
theorem mayShowMagic_of_readWord (h : order.readWord 4 data pos = .ok layout.magic) :
    mayShowMagic data pos = true := by
  have hstands := standsAt_of_readWord h
  obtain ⟨first, second, third, last, hbytes, hend⟩ : ∃ first second third last,
      order.encode 4 layout.magic = [first, second, third, last] ∧
        (first = 0xff ∨ last = 0xff) := by
    cases order <;> cases layout <;> exact ⟨_, _, _, _, rfl, by decide⟩
  rw [hbytes] at hstands
  rcases hend with rfl | rfl
  · simp [mayShowMagic, hstands.getElem?_eq]
  · simp [mayShowMagic, hstands.tail.tail.tail.getElem?_eq]

theorem le_size_of_layoutAt? (h : layoutAt? order data pos = some layout) :
    pos + 8 ≤ data.size := by
  by_contra hshort
  have hnone : data[pos + 7]? = none := getElem?_neg data (pos + 7) (by omega)
  simp [layoutAt?, hnone] at h

theorem mayShowMagic_of_layoutAt? (h : layoutAt? order data pos = some layout) :
    mayShowMagic data pos = true := by
  have hroom := le_size_of_layoutAt? h
  rw [← layoutAt?_extract hroom, layoutAt?_eq_some_iff] at h
  have hmagic := h.magic
  rw [order.readWord_extract (Nat.le_refl _) (by omega)] at hmagic
  exact mayShowMagic_of_readWord hmagic

/-! ## The search -/

theorem findSome?_namedCandidates {source : Source} (hsource : source ≠ .scan) (va : Nat) :
    (namedCandidates image source va).findSome? (·.table? image.order) =
      accept? image none source va := by
  ext location
  rw [accept?_eq_some_iff, namedCandidates]
  cases image.bytesFrom va with
  | error e => simp
  | ok data =>
      rw [List.findSome?_singleton, Candidate.table?_eq_some_iff]
      obtain ⟨va', layout, source'⟩ := location
      constructor
      · rintro ⟨hshows, rfl, rfl⟩
        exact ⟨data, rfl, layout, hshows.start, rfl⟩
      · rintro ⟨_, ⟨⟩, _, hstart, ⟨⟩⟩
        exact ⟨⟨hstart, fun hscan => absurd hscan hsource⟩, rfl, rfl⟩

theorem countsFunctions_extract (hroom : pos + 8 ≤ data.size) :
    countsFunctions order (data.extract pos data.size) 0 = countsFunctions order data pos := by
  have hword : ∀ width, order.readWord width (data.extract pos data.size) 8 =
      order.readWord width data (pos + 8) := by
    intro width
    by_cases hend : pos + 8 + width ≤ data.size
    · exact order.readWord_extract (Nat.le_refl _) hend
    · have hsize : (data.extract pos data.size).size = data.size - pos := by
        rw [ByteArray.size_extract, Nat.min_self]
      rw [ByteOrder.readWord, ByteOrder.readWord, if_neg (by omega), if_neg hend]
  unfold countsFunctions
  rw [getElem?_extract_size, Nat.zero_add]
  simp only [Nat.zero_add, hword]

/-- Without room for a header there is no table. -/
theorem Candidate.table?_of_no_room {c : Candidate} (h : c.bytes.size < 8) :
    c.table? order = none :=
  table?_eq_none_iff.2 fun _ hshows => absurd hshows.start.size (Nat.not_le.2 h)

/-- The scan of a section finds the first table of its candidates. -/
theorem scanSection?_eq_findSome? (image : Image) (s : Section) :
    scanSection? image none s = (sectionCandidates image s).findSome? (·.table? image.order) := by
  cases hcontent : image.content s with
  | error e => simp [scanSection?, Image.scanSection?, sectionCandidates, hcontent]
  | ok content =>
      -- Where no room for a header is left, looking further finds nothing.
      have hshort : ∀ pos ∈ alignedOffsets 4 1 s.address content.size,
          decide (pos + 8 ≤ content.size) = false →
            Candidate.table? image.order
              ⟨s.address + pos, .scan, content.extract pos content.size⟩ = none := by
        intro pos _ hpos
        refine Candidate.table?_of_no_room ?_
        rw [decide_eq_false_iff_not] at hpos
        rw [ByteArray.size_extract]
        omega
      rw [scanSection?, Image.scanSection?_of_content hcontent,
        sectionCandidates_of_content hcontent, List.findSome?_map, Function.comp_def,
        ← findSome?_filter_of_none hshort, ← alignedOffsets_eq_filter 4 _ _ (by decide)]
      apply findSome?_congr
      intro pos hpos
      obtain ⟨-, hroom⟩ := mem_alignedOffsets.1 hpos
      simp only [Candidate.table?, layoutAt?_extract hroom, countsFunctions_extract hroom]
      cases hlayout : layoutAt? image.order content pos with
      | none => simp
      | some layout => simp [mayShowMagic_of_layoutAt? hlayout]

/-- The search finds the first table of all candidates. -/
theorem locate?_eq_findSome? (image : Image) :
    locate? image none = (candidates image).findSome? (·.table? image.order) := by
  rw [candidates, List.findSome?_append, List.findSome?_append, findSome?_flatMap,
    findSome?_flatMap, findSome?_flatMap]
  simp only [findSome?_namedCandidates (show Source.ofSection ≠ .scan by decide),
    findSome?_namedCandidates (show Source.symbol ≠ .scan by decide), ← scanSection?_eq_findSome?]
  unfold locate?
  cases image.symbol? symbolName with
  | none => rfl
  | some va =>
      rw [Option.toList_some, List.findSome?_singleton]
      rfl

theorem locate_eq_unknownVersion_iff :
    locate image none = .error .unknownVersion ↔ locate? image none = none := by
  cases hfound : locate? image none with
  | none => simp [locate_of_none hfound]
  | some found =>
      rw [locate_of_some hfound, checkAddress]
      split <;> simp [Except.map]

theorem locate_eq_aborted_iff :
    locate image none = .error .aborted ↔
      ∃ location, locate? image none = some location ∧ wordModulus ≤ location.va := by
  cases hfound : locate? image none with
  | none => simp [locate_of_none hfound]
  | some found =>
      rw [locate_of_some hfound, checkAddress]
      split
      all_goals
        rename_i hva
        simpa [Except.map] using hva

/-- Whether a table starts at a candidate and at none in front of it. -/
def IsFirst (image : Image) (location : Location) : Prop :=
  ∃ before c after, candidates image = before ++ c :: after ∧
    c.Shows image.order location.layout ∧ location.va = c.va ∧ location.source = c.source ∧
    ∀ c' ∈ before, ∀ layout, ¬ c'.Shows image.order layout

theorem locate?_eq_some_iff : locate? image none = some location ↔ IsFirst image location := by
  simp only [IsFirst, locate?_eq_findSome?, List.findSome?_eq_some_iff,
    Candidate.table?_eq_some_iff, Candidate.table?_eq_none_iff, and_assoc]

/-- Without a layout from outside, the search comes to the first candidate at which a table starts,
and to the layout whose magic number stands there; it fails exactly if there is none. No header is
passed over for want of a byte of its magic number. The candidate is answered with if it is at an
address; the run is aborted where it lies behind the last one, which takes a section that goes
beyond it. -/
theorem locate_eq_first_candidate (image : Image) :
    (∀ location, locate image none = .ok location ↔
      IsFirst image location ∧ location.va < wordModulus) ∧
    (locate image none = .error .unknownVersion ↔
      ∀ c ∈ candidates image, ∀ layout, ¬ c.Shows image.order layout) ∧
    (locate image none = .error .aborted ↔
      ∃ location, IsFirst image location ∧ wordModulus ≤ location.va) ∧
    ((∀ s ∈ image.sections, s.address + s.fileSize ≤ wordModulus) →
      locate image none ≠ .error .aborted) ∧
    (∀ content pos layout, layoutAt? image.order content pos = some layout →
      mayShowMagic content pos = true) ∧
    ∀ s, (sectionCandidates image s).Pairwise (·.va < ·.va) := by
  refine ⟨fun location => ?_, ?_, ?_, fun hbounded => ?_, fun _ _ _ => mayShowMagic_of_layoutAt?,
    pairwise_sectionCandidates image⟩
  · rw [locate_eq_ok_iff, locate?_eq_some_iff]
  · simp only [locate_eq_unknownVersion_iff, locate?_eq_findSome?, List.findSome?_eq_none_iff,
      Candidate.table?_eq_none_iff]
  · simp only [locate_eq_aborted_iff, locate?_eq_some_iff]
  · rw [ne_eq, locate_eq_aborted_iff]
    rintro ⟨location, hfound, hva⟩
    obtain ⟨before, c, after, hcandidates, -, hc, -⟩ := locate?_eq_some_iff.1 hfound
    have hmem : c ∈ candidates image := by
      rw [hcandidates]
      exact List.mem_append_right _ List.mem_cons_self
    obtain ⟨s, hs, hlt⟩ := exists_section_of_mem_candidates hmem
    have hbound := hbounded s hs
    omega

/-! ## A table behind the last address -/

/-- A file of one segment, whose first sixteen bytes are the last ones that have an address. Behind
them starts a table with one function. -/
def highFile : ByteArray :=
  ⟨#[0x7f, 0x45, 0x4c, 0x46, 2, 1, 1, 0, 0, 0, 0, 0, 0, 0, 0, 0, 2, 0, 0x3e, 0, 1, 0, 0, 0, 0,
     0, 0, 0, 0, 0, 0, 0, 0x40, 0, 0, 0, 0, 0, 0, 0, 0, 0, 0, 0, 0, 0, 0, 0, 0, 0, 0, 0, 0x40, 0,
     0x38, 0, 1, 0, 0x40, 0, 0, 0, 0, 0, 1, 0, 0, 0, 4, 0, 0, 0, 0x78, 0, 0, 0, 0, 0, 0, 0, 0xf0,
     0xff, 0xff, 0xff, 0xff, 0xff, 0xff, 0xff, 0, 0, 0, 0, 0, 0, 0, 0, 0x20, 0, 0, 0, 0, 0, 0, 0,
     0x20, 0, 0, 0, 0, 0, 0, 0, 4, 0, 0, 0, 0, 0, 0, 0, 0, 0, 0, 0, 0, 0, 0, 0, 0, 0, 0, 0, 0, 0,
     0, 0, 0xf1, 0xff, 0xff, 0xff, 0, 0, 1, 8, 1, 0, 0, 0, 0, 0, 0, 0]⟩

def highImage : Image :=
  { format := .elf
    sections := [
      { name := "LOAD0", address := 0xfffffffffffffff0, size := 32, offset := 120, fileSize := 32
        executable := false, writable := false, initialized := true }]
    symbols := []
    entry := 0
    pointerSize := .eight
    order := .little
    arch := "amd64"
    os := "linux"
    data := highFile }

theorem ofBytes_highImage : Image.ofBytes highFile = .ok highImage :=
  Image.ofBytes_eq_ok rfl (by decide +kernel) (eq_ok_of_toOption (by decide +kernel))

theorem locate?_highImage :
    locate? highImage none = some ⟨wordModulus, .go1_20, .scan⟩ := by
  decide +kernel

/-- The table is seen, and nothing is answered. -/
theorem locate_highImage :
    Image.ofBytes highFile = .ok highImage ∧ IsFirst highImage ⟨wordModulus, .go1_20, .scan⟩ ∧
      locate highImage none = .error .aborted :=
  ⟨ofBytes_highImage, locate?_eq_some_iff.1 locate?_highImage,
    locate_eq_aborted_iff.2 ⟨_, locate?_highImage, Nat.le_refl _⟩⟩

end GoImage.FunctionTable
