import GoImage.Image.Load
import GoImage.Proofs.Bytes.Word
import GoImage.Proofs.Image.Content
import GoImage.Proofs.Run

/-! # Sections of loaded images

Every section of a loaded image is made from one header of its format, and is marked as initialized
if the file holds anything of it. -/

namespace GoImage

/-- The sections that headers of the three formats stand for. -/
inductive Section.OfHeader : Section → Prop
  | elf (names : ByteArray) (header : Elf.SectionHeader) : OfHeader (Elf.sectionOf names header)
  | segment (header : Elf.ProgramHeader) (index : Nat) :
      OfHeader (Elf.sectionOfSegment header index)
  | pe (imageBase : Nat) (header : Pe.SectionHeader) : OfHeader (Pe.sectionOf imageBase header)
  | machO (segment : MachO.Segment) (header : MachO.SectionHeader) :
      OfHeader (MachO.sectionOf segment header)

/-- Content from the file is never taken for memory that is filled with zeros. -/
theorem Section.OfHeader.initialized {s : Section} (h : s.OfHeader) (hsize : 0 < s.fileSize) :
    s.initialized = true := by
  cases h with
  | elf names header => by_cases hzero : header.type = Elf.zeroFillType <;> simp_all [Elf.sectionOf]
  | segment header index =>
      have hmin : 0 < min header.fileSize header.size := hsize
      exact decide_eq_true (by omega)
  | pe imageBase header => exact decide_eq_true hsize
  | machO segment header =>
      simp only [MachO.sectionOf] at hsize ⊢
      split at hsize
      · exact absurd hsize (Nat.lt_irrefl 0)
      · simp_all

/-- Whether all sections stand for headers. -/
def Headers.OfTables (headers : Headers) : Prop :=
  ∀ s ∈ headers.sections, s.OfHeader

theorem Elf.headersIn_ofTables (width : PointerSize) (order : ByteOrder) (abi : Nat) :
    Yields Headers.OfTables (Elf.headersIn width order abi) := by
  unfold Elf.headersIn
  refine .bind fun header => .bind fun segments => .bind fun table => .bind fun names =>
    .bind fun symbols => .pure ?_
  intro s hs
  dsimp only at hs
  split at hs
  · obtain ⟨i, hi, rfl⟩ := List.mem_mapIdx.1 hs
    exact .segment _ i
  · obtain ⟨header, -, rfl⟩ := List.mem_map.1 hs
    exact .elf names header

theorem Elf.ofTables_of_headers {data : ByteArray} {headers : Headers}
    (h : Elf.headers data = .ok headers) : headers.OfTables := by
  obtain ⟨⟨width, order, abi⟩, -, h⟩ := exists_of_bind_eq_ok h
  exact (Elf.headersIn_ofTables width order abi).on h

/-- What loading takes from the tables, and that no section lies behind the last address. -/
theorem Pe.sections_of_headers {data : ByteArray} {file : FileHeader} {optional : OptionalHeader}
    {table : List SectionHeader} {headers : Headers}
    (h : Pe.headers data file optional table = .ok headers) :
    headers.sections = table.map (sectionOf optional.imageBase) ∧
      headers.pointerSize = optional.width ∧
      ∀ header ∈ table, optional.imageBase + header.virtualAddress < wordModulus := by
  obtain ⟨⟨⟩, haddresses, h⟩ := exists_of_bind_eq_ok h
  obtain ⟨symbols, -, h⟩ := exists_of_bind_eq_ok h
  obtain ⟨⟨⟩, -, h⟩ := exists_of_bind_eq_ok h
  cases h
  exact ⟨rfl, rfl, List.forall_mem_map.1 (forM_checkAddress_eq_ok_iff.1 haddresses)⟩

theorem Pe.ofTables_of_headers {data : ByteArray} {file : FileHeader} {optional : OptionalHeader}
    {table : List SectionHeader} {headers : Headers}
    (h : Pe.headers data file optional table = .ok headers) : headers.OfTables := by
  intro s hs
  rw [(sections_of_headers h).1] at hs
  obtain ⟨header, -, rfl⟩ := List.mem_map.1 hs
  exact .pe optional.imageBase header

theorem MachO.headersIn_ofTables (width : PointerSize) (order : ByteOrder) :
    Yields Headers.OfTables (MachO.headersIn width order) := by
  unfold MachO.headersIn
  refine .bind fun file => ?_
  dsimp only
  split
  · exact .throw _
  refine .bind fun _ => .bind fun cpu => .bind fun _ => .bind fun count => .bind fun size => ?_
  split
  · exact .throw _
  refine .bind fun commands => .bind fun entry => .pure ?_
  intro s hs
  obtain ⟨command, -, hs⟩ := List.mem_flatMap.1 hs
  cases command with
  | segment segment =>
      obtain ⟨header, -, rfl⟩ := List.mem_map.1 hs
      exact .machO segment header
  | symbolTable symbols => exact absurd hs List.not_mem_nil
  | mainEntry offset => exact absurd hs List.not_mem_nil
  | thread entry => exact absurd hs List.not_mem_nil
  | other => exact absurd hs List.not_mem_nil

theorem MachO.ofTables_of_headers {data : ByteArray} {headers : Headers}
    (h : MachO.headers data = .ok headers) : headers.OfTables := by
  unfold MachO.headers at h
  split at h
  · rename_i width order _
    exact (MachO.headersIn_ofTables width order).on h
  · cases h

theorem eq_ok_of_mapError {ε ε' α : Type} {x : Except ε α} {f : ε → ε'} {a : α}
    (h : x.mapError f = .ok a) : x = .ok a := by
  cases x with
  | error e => cases h
  | ok a' => exact congrArg Except.ok (Except.ok.inj h)

theorem Headers.ofTables_of_ofBytes {data : ByteArray} {headers : Headers}
    (h : Headers.ofBytes data = .ok headers) : headers.OfTables := by
  obtain ⟨format, -, h⟩ := exists_of_bind_eq_ok h
  cases format with
  | elf => exact Elf.ofTables_of_headers (eq_ok_of_mapError h)
  | pe =>
      obtain ⟨⟨file, optional, table⟩, -, h⟩ := exists_of_bind_eq_ok h
      exact Pe.ofTables_of_headers h
  | machO => exact MachO.ofTables_of_headers (eq_ok_of_mapError h)

namespace Image

variable {data : ByteArray} {image : Image}

/-- A file is loaded once its headers are read. -/
theorem ofBytes_eq_ok (hdata : image.data = data) (hsize : data.size ≠ 0)
    (h : Headers.ofBytes data = .ok image.toHeaders) : Image.ofBytes data = .ok image := by
  subst hdata
  unfold Image.ofBytes
  rw [if_neg hsize, h]
  rfl

theorem exists_headers_of_ofBytes (h : Image.ofBytes data = .ok image) :
    ∃ headers, Headers.ofBytes data = .ok headers ∧ image = { headers with data } := by
  unfold Image.ofBytes at h
  split at h
  · cases h
  · obtain ⟨headers, hheaders, h⟩ := exists_of_bind_eq_ok h
    cases h
    exact ⟨headers, hheaders, rfl⟩

theorem data_of_ofBytes (h : Image.ofBytes data = .ok image) : image.data = data := by
  obtain ⟨headers, -, rfl⟩ := exists_headers_of_ofBytes h
  rfl

theorem ofHeader_of_mem {s : Section} (h : Image.ofBytes data = .ok image)
    (hs : s ∈ image.sections) : s.OfHeader := by
  obtain ⟨headers, hheaders, rfl⟩ := exists_headers_of_ofBytes h
  exact Headers.ofTables_of_ofBytes hheaders s hs

/-- In a loaded image a section has content exactly if its size in the file is not zero. -/
theorem isFileBacked_of_mem {s : Section} (h : Image.ofBytes data = .ok image)
    (hs : s ∈ image.sections) (hsize : 0 < s.fileSize) : s.isFileBacked = true := by
  have hinitialized := (ofHeader_of_mem h hs).initialized hsize
  simp [Section.isFileBacked, hinitialized, hsize]

end Image

end GoImage
