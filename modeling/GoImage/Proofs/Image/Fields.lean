import GoImage.Proofs.Bytes.Word
import GoImage.Proofs.Image.Load

/-! # Numbers in headers

A number from a header is below the power of 256 that the width of its field gives. So addresses and
sizes of sections are bounded by the width of the addresses of their image. -/

namespace GoImage

/-- In a file with addresses of this size a decoder answers with a property, and does not change
the size. -/
def Answers {α : Type} (size : PointerSize) (P : α → Prop) (decoder : Decoder α) : Prop :=
  ∀ c a c', c.pointerSize = size.bytes → decoder.run c = .ok a c' →
    P a ∧ c'.pointerSize = size.bytes

namespace Answers

variable {α β : Type} {size : PointerSize} {P : α → Prop} {Q : β → Prop}

theorem pure {a : α} (ha : P a) : Answers size P (Pure.pure a) := by
  rintro c _ _ hc ⟨⟩
  exact ⟨ha, hc⟩

theorem throw (e : Error) : Answers size P (throw e) := by
  intro c a c' hc h
  cases h

theorem bind {decoder : Decoder α} {f : α → Decoder β} (hx : Answers size P decoder)
    (hf : ∀ a, P a → Answers size Q (f a)) : Answers size Q (decoder >>= f) := by
  intro c b c' hc h
  rw [EStateM.run_bind] at h
  cases hrun : decoder.run c with
  | ok a c₁ =>
      rw [hrun] at h
      obtain ⟨ha, hc₁⟩ := hx c a c₁ hc hrun
      exact hf a ha c₁ b c' hc₁ h
  | error e c₁ =>
      rw [hrun] at h
      cases h

theorem mono {P' : α → Prop} {decoder : Decoder α} (h : Answers size P decoder)
    (hP : ∀ a, P a → P' a) : Answers size P' decoder := by
  intro c a c' hc hrun
  obtain ⟨ha, hc'⟩ := h c a c' hc hrun
  exact ⟨hP a ha, hc'⟩

theorem on {decoder : Decoder α} (h : Answers size P decoder) {c : Cursor} {a : α}
    (hc : c.pointerSize = size.bytes) (ha : decoder.on c = .ok a) : P a := by
  unfold Decoder.on at ha
  cases hrun : decoder.run c with
  | ok a' c' =>
      rw [hrun] at ha
      cases ha
      exact (h c a c' hc hrun).1
  | error e c' =>
      rw [hrun] at ha
      cases ha

theorem on_bind {decoder : Decoder α} {f : α → Decoder β} (hx : Answers size P decoder) {c : Cursor}
    {b : β} (hc : c.pointerSize = size.bytes) (hb : (decoder >>= f).on c = .ok b) :
    ∃ a c', P a ∧ c'.pointerSize = size.bytes ∧ (f a).on c' = .ok b := by
  obtain ⟨a, c', hrun, hb⟩ := Decoder.exists_of_on_bind hb
  obtain ⟨ha, hc'⟩ := hx c a c' hc hrun
  exact ⟨a, c', ha, hc', hb⟩

/-- What cannot be decoded stands for nothing. -/
theorem getD_on {decoder : Decoder (List α)} (h : Answers size (fun l => ∀ a ∈ l, P a) decoder)
    {c : Cursor} (hc : c.pointerSize = size.bytes) :
    ∀ a ∈ (decoder.on c).toOption.getD [], P a := by
  cases hlist : decoder.on c with
  | ok l => exact h.on hc hlist
  | error e => exact fun _ ha => absurd ha List.not_mem_nil

theorem get : Answers size (fun c => c.pointerSize = size.bytes) MonadState.get := by
  rintro c _ _ hc ⟨⟩
  exact ⟨hc, hc⟩

theorem ofExcept {x : Except Error α} (hx : ∀ a, x = .ok a → P a) :
    Answers size P (ofExcept x : Decoder α) := by
  cases x with
  | ok a => exact .pure (hx a rfl)
  | error e => exact .throw e

theorem seek (pos : Nat) : Answers size (fun _ => True) (Decoder.seek pos) := by
  intro c a c' hc h
  rw [Decoder.run_seek] at h
  split at h
  · cases h
  · cases h
    exact ⟨trivial, hc⟩

theorem skip (n : Nat) : Answers size (fun _ => True) (Decoder.skip n) := by
  intro c a c' hc h
  rw [Decoder.run_skip] at h
  split at h
  · cases h
    exact ⟨trivial, hc⟩
  · cases h

theorem take (n : Nat) : Answers size (fun _ => True) (Decoder.take n) := by
  intro c a c' hc h
  rw [Decoder.run_take] at h
  split at h
  · cases h
    exact ⟨trivial, hc⟩
  · cases h

theorem fixedText (n : Nat) : Answers size (fun _ => True) (Decoder.fixedText n) := by
  unfold Decoder.fixedText
  refine .bind (.take n) fun field _ => ?_
  split
  · exact .pure trivial
  · exact .pure trivial

theorem wordIn (order : ByteOrder) (width : Nat) :
    Answers size (· < 256 ^ width) (Decoder.wordIn order width) := by
  intro c a c' hc h
  rw [Decoder.run_wordIn] at h
  split at h
  · rename_i hread
    cases h
    exact ⟨ByteOrder.readWord_lt hread, hc⟩
  · cases h

theorem word (width : Nat) : Answers size (· < 256 ^ width) (Decoder.word width) :=
  .bind .get fun _ _ => .wordIn _ width

theorem int (type : IntType) : Answers size (fun _ => True) (Decoder.int type) :=
  .bind .get fun _ _ => .bind (.wordIn _ _) fun _ _ => .pure trivial

theorem pointer : Answers size (· < 256 ^ size.bytes) Decoder.pointer := by
  intro c a c' hc h
  rw [Decoder.run_pointer, hc, PointerSize.ofBytes?_bytes] at h
  exact wordIn c.order size.bytes c a c' hc h

theorem skipPointers (n : Nat) : Answers size (fun _ => True) (Decoder.skipPointers n) :=
  .bind .get fun _ _ => .skip _

theorem times {decoder : Decoder α} (h : Answers size P decoder) (n : Nat) :
    Answers size (fun l => ∀ a ∈ l, P a) (Decoder.times decoder n) := by
  induction n with
  | zero => exact .pure fun a ha => absurd ha List.not_mem_nil
  | succ n ih =>
      exact .bind h fun a ha => .bind ih fun l hl => .pure (List.forall_mem_cons.2 ⟨ha, hl⟩)

end Answers

/-! ## Headers of the three formats -/

/-- What addresses and sizes of sections stay below: one more bit than the addresses of narrow
targets have, as those of one format are stated relative to another address. -/
def PointerSize.reach : PointerSize → Nat
  | four => 0x200000000
  | eight => wordModulus

theorem PointerSize.reach_le (size : PointerSize) : size.reach ≤ wordModulus := by
  cases size <;> decide

theorem PointerSize.lt_reach {size : PointerSize} {n : Nat} (h : n < 256 ^ size.bytes) :
    n < size.reach := by
  cases size with
  | four => exact Nat.lt_trans h (by decide)
  | eight => exact h

/-- Whether all sections begin, and have no more content, than the width of addresses allows. -/
def Headers.WithinReach (headers : Headers) : Prop :=
  ∀ s ∈ headers.sections,
    s.address < headers.pointerSize.reach ∧ s.fileSize < headers.pointerSize.reach

namespace Elf

variable {size : PointerSize}

structure SectionHeader.Fits (size : PointerSize) (header : SectionHeader) : Prop where
  address : header.address < 256 ^ size.bytes
  size : header.size < 256 ^ size.bytes

structure ProgramHeader.Fits (size : PointerSize) (header : ProgramHeader) : Prop where
  address : header.address < 256 ^ size.bytes
  size : header.size < 256 ^ size.bytes

theorem fileHeader_answers : Answers size (fun _ => True) fileHeader :=
  .bind (.seek 18) fun _ _ => .bind (.word 2) fun _ _ => .bind (.skip 4) fun _ _ =>
    .bind .pointer fun _ _ => .bind .pointer fun _ _ => .bind .pointer fun _ _ =>
    .bind (.skip 8) fun _ _ => .bind (.word 2) fun _ _ => .bind (.skip 2) fun _ _ =>
    .bind (.word 2) fun _ _ => .bind (.word 2) fun _ _ => .pure trivial

theorem sectionHeader_answers : Answers size (·.Fits size) sectionHeader :=
  .bind (.word 4) fun _ _ => .bind (.word 4) fun _ _ => .bind .pointer fun _ _ =>
    .bind .pointer fun _ haddress => .bind .pointer fun _ _ => .bind .pointer fun _ hsize =>
    .bind (.word 4) fun _ _ => .bind (.skip 4) fun _ _ => .bind (.skipPointers 1) fun _ _ =>
    .bind .pointer fun _ _ => .pure ⟨haddress, hsize⟩

theorem sectionHeaders_answers (header : FileHeader) :
    Answers size (fun table => ∀ h ∈ table, h.Fits size) (sectionHeaders header) := by
  unfold sectionHeaders
  split
  · exact .pure fun _ h => absurd h List.not_mem_nil
  · exact .bind (.seek _) fun _ _ => .bind sectionHeader_answers fun _ hfirst =>
      .bind (sectionHeader_answers.times _) fun _ hrest =>
      .pure (List.forall_mem_cons.2 ⟨hfirst, hrest⟩)

theorem programHeader_answers : Answers size (·.Fits size) (programHeader size) := by
  cases size with
  | four =>
      exact .bind (.word 4) fun _ _ => .bind (.pure (P := fun _ => True) trivial) fun _ _ =>
        .bind .pointer fun _ _ => .bind .pointer fun _ haddress =>
        .bind (.skipPointers 1) fun _ _ => .bind .pointer fun _ _ => .bind .pointer fun _ hsize =>
        .bind (.word 4) fun _ _ => .bind (.skipPointers 1) fun _ _ => .pure ⟨haddress, hsize⟩
  | eight =>
      exact .bind (.word 4) fun _ _ => .bind (.word 4) fun _ _ =>
        .bind .pointer fun _ _ => .bind .pointer fun _ haddress =>
        .bind (.skipPointers 1) fun _ _ => .bind .pointer fun _ _ => .bind .pointer fun _ hsize =>
        .bind (.pure (P := fun _ => True) trivial) fun _ _ => .bind (.skipPointers 1) fun _ _ =>
        .pure ⟨haddress, hsize⟩

theorem programHeaders_answers (header : FileHeader) :
    Answers size (fun table => ∀ h ∈ table, h.Fits size) (programHeaders size header) := by
  unfold programHeaders
  split
  · exact .pure fun _ h => absurd h List.not_mem_nil
  · exact .bind (.seek _) fun _ _ => programHeader_answers.times _

theorem withinReach_of_headers {data : ByteArray} {headers : Headers}
    (h : Elf.headers data = .ok headers) : headers.WithinReach := by
  obtain ⟨⟨width, order, abi⟩, -, h⟩ := exists_of_bind_eq_ok h
  obtain ⟨header, _, -, hc, h⟩ := fileHeader_answers.on_bind rfl h
  obtain ⟨segments, _, hsegments, hc, h⟩ := (programHeaders_answers header).on_bind hc h
  obtain ⟨table, _, htable, -, h⟩ := (sectionHeaders_answers header).on_bind hc h
  obtain ⟨names, _, -, h⟩ := Decoder.exists_of_on_bind h
  obtain ⟨symbols, _, -, h⟩ := Decoder.exists_of_on_bind h
  cases h
  intro s hs
  dsimp only at hs
  split at hs
  · obtain ⟨i, hi, rfl⟩ := List.mem_mapIdx.1 hs
    have hfits := hsegments _ (List.mem_filter.1 (List.getElem_mem hi)).1
    exact ⟨width.lt_reach hfits.address,
      Nat.lt_of_le_of_lt (Nat.min_le_right _ _) (width.lt_reach hfits.size)⟩
  · obtain ⟨header, hheader, rfl⟩ := List.mem_map.1 hs
    have hfits := htable _ (List.mem_filter.1 hheader).1
    have hsize := width.lt_reach hfits.size
    refine ⟨width.lt_reach hfits.address, ?_⟩
    dsimp only [sectionOf]
    split <;> omega

end Elf

namespace Coff

theorem name_answers (strings : ByteArray) : Answers .eight (fun _ => True) (name strings) := by
  unfold name
  refine .bind (.take 8) fun field _ => ?_
  split
  · exact .bind (.ofExcept (P := fun _ => True) fun _ _ => trivial) fun _ _ =>
      .ofExcept fun _ _ => trivial
  · exact .pure trivial

theorem record_answers (strings : ByteArray) :
    Answers .eight (·.value < 256 ^ 4) (record strings) :=
  .bind (name_answers strings) fun _ _ => .bind (.word 4) fun _ hvalue =>
    .bind (.int .i16) fun _ _ => .bind (.skip 3) fun _ _ => .bind (.word 1) fun _ _ => .pure hvalue

theorem Table.value_lt_of_mem {table : Table} {index : Nat} {r : Record}
    (h : r ∈ table.recordsFrom index) : r.value < 256 ^ 4 := by
  fun_induction table.recordsFrom index with
  | case1 index hindex r' hrecord ih =>
      rcases List.mem_cons.1 h with rfl | h
      · have hanswers : Answers .eight (·.value < 256 ^ 4) (do
            Decoder.seek (table.offset + recordSize * index)
            record table.strings) :=
          .bind (.seek _) fun _ _ => record_answers _
        exact hanswers.on rfl (eq_ok_of_toOption hrecord)
      · exact ih h
  | case2 index hindex hrecord => exact absurd h List.not_mem_nil
  | case3 index hindex => exact absurd h List.not_mem_nil

end Coff

namespace Pe

structure OptionalHeader.Fits (header : OptionalHeader) : Prop where
  imageBase : header.imageBase < 256 ^ header.width.bytes
  entry : header.entry < 256 ^ 4

structure SectionHeader.Fits (header : SectionHeader) : Prop where
  virtualAddress : header.virtualAddress < 256 ^ 4
  rawSize : header.rawSize < 256 ^ 4

theorem fileHeader_answers : Answers .eight (fun _ => True) fileHeader :=
  .bind (.word 2) fun _ _ => .bind (.word 2) fun _ _ => .bind (.skip 4) fun _ _ =>
    .bind (.word 4) fun _ _ => .bind (.word 4) fun _ _ => .bind (.word 2) fun _ _ =>
    .bind (.skip 2) fun _ _ => .pure trivial

theorem directories_answers : Answers .eight (fun _ => True) directories := by
  unfold directories
  refine .bind (.word 4) fun count _ => ?_
  split
  · exact .bind (.throw (P := fun _ => False) _) fun _ h => h.elim
  · exact .skip _

theorem optionalHeader_answers (start : Nat) :
    Answers .eight OptionalHeader.Fits (optionalHeader start) := by
  unfold optionalHeader
  refine .bind (.word 2) fun magic _ => ?_
  split
  · exact .bind (.seek _) fun _ _ => .bind (.word 4) fun _ hentry => .bind (.seek _) fun _ _ =>
      .bind (.word 4) fun _ hbase => .bind (.seek _) fun _ _ =>
      .bind directories_answers fun _ _ => .pure ⟨hbase, hentry⟩
  · exact .bind (.seek _) fun _ _ => .bind (.word 4) fun _ hentry => .bind (.seek _) fun _ _ =>
      .bind (.word 8) fun _ hbase => .bind (.seek _) fun _ _ =>
      .bind directories_answers fun _ _ => .pure ⟨hbase, hentry⟩
  · exact .throw _

theorem sectionName_answers (strings : Nat) :
    Answers .eight (fun _ => True) (sectionName strings) := by
  unfold sectionName
  refine .bind (.take 8) fun field _ => ?_
  dsimp only
  split
  · exact .pure trivial
  split
  · exact .throw _
  split
  · exact .throw _
  · exact .bind .get fun _ _ => .pure trivial

theorem sectionHeader_answers (strings : Nat) :
    Answers .eight SectionHeader.Fits (sectionHeader strings) :=
  .bind (sectionName_answers strings) fun _ _ => .bind (.word 4) fun _ _ =>
    .bind (.word 4) fun _ haddress => .bind (.word 4) fun _ hsize => .bind (.word 4) fun _ _ =>
    .bind (.skip 12) fun _ _ => .bind (.word 4) fun _ _ => .pure ⟨haddress, hsize⟩

theorem headerTables_answers :
    Answers .eight (fun tables => tables.2.1.Fits ∧ ∀ h ∈ tables.2.2, h.Fits) headerTables := by
  unfold headerTables signatureOffset
  simp only [bind_assoc]
  refine .bind (.seek _) fun _ _ => .bind (.word 4) fun start _ => ?_
  split
  · exact .bind (.throw (P := fun _ => False) _) fun _ h => h.elim
  refine .bind (.seek _) fun _ _ => .bind fileHeader_answers fun file _ => ?_
  -- Without an optional header all of its numbers are zero.
  split
  case' isTrue =>
    refine .bind (.pure (P := OptionalHeader.Fits) ⟨by decide, by decide⟩) fun optional hbase => ?_
  case' isFalse => refine .bind (optionalHeader_answers _) fun optional hbase => ?_
  all_goals
    split
    · exact .bind (.pure (P := fun table => ∀ h ∈ table, SectionHeader.Fits h)
        fun _ h => absurd h List.not_mem_nil) fun _ htable => .pure ⟨hbase, htable⟩
    · exact .bind (.seek _) fun _ _ => .bind ((sectionHeader_answers _).times _) fun _ htable =>
        .pure ⟨hbase, htable⟩

theorem fits_of_headerTables {data : ByteArray} {file : FileHeader} {optional : OptionalHeader}
    {table : List SectionHeader} (h : headerTables.on { data } = .ok (file, optional, table)) :
    optional.Fits ∧ ∀ header ∈ table, header.Fits :=
  headerTables_answers.on rfl h

/-- The content of a section is not larger than its header states. -/
theorem fileSize_le_rawSize (imageBase : Nat) (header : SectionHeader) :
    (sectionOf imageBase header).fileSize ≤ header.rawSize := by
  dsimp only [sectionOf]
  split
  · exact Nat.zero_le _
  · exact Nat.min_le_left _ _

theorem withinReach_of_headers {data : ByteArray} {file : FileHeader} {optional : OptionalHeader}
    {table : List SectionHeader} {headers : Headers}
    (htables : headerTables.on { data } = .ok (file, optional, table))
    (h : Pe.headers data file optional table = .ok headers) : headers.WithinReach := by
  obtain ⟨hoptional, htable⟩ := fits_of_headerTables htables
  obtain ⟨hsections, hwidth, haddresses⟩ := sections_of_headers h
  intro s hs
  rw [hsections] at hs
  obtain ⟨header, hheader, rfl⟩ := List.mem_map.1 hs
  obtain ⟨haddress, hsize⟩ := htable header hheader
  have hcontent := fileSize_le_rawSize optional.imageBase header
  have hbase := hoptional.imageBase
  rw [hwidth]
  cases hwidth : optional.width with
  | four =>
      rw [hwidth] at hbase
      have hnarrow : optional.imageBase < 256 ^ 4 := hbase
      dsimp only [PointerSize.reach, sectionOf] at hcontent ⊢
      exact ⟨by omega, by omega⟩
  | eight =>
      exact ⟨haddresses header hheader,
        Nat.lt_of_le_of_lt hcontent (Nat.lt_trans hsize (by decide))⟩

end Pe

namespace MachO

variable {size : PointerSize}

structure SectionHeader.Fits (size : PointerSize) (header : SectionHeader) : Prop where
  address : header.address < 256 ^ size.bytes
  size : header.size < 256 ^ size.bytes

def Command.Fits (size : PointerSize) (command : Command) : Prop :=
  ∀ segment, command = .segment segment → ∀ header ∈ segment.sections, header.Fits size

theorem sectionHeader_answers (width : PointerSize) :
    Answers size (·.Fits size) (sectionHeader width) :=
  .bind (.fixedText 16) fun _ _ => .bind (.skip 16) fun _ _ => .bind .pointer fun _ haddress =>
    .bind .pointer fun _ hsize => .bind (.word 4) fun _ _ => .bind (.skip 12) fun _ _ =>
    .bind (.word 4) fun _ _ => .bind (.skip _) fun _ _ => .pure ⟨haddress, hsize⟩

theorem segmentCommand_answers (width : PointerSize) (start : Nat) :
    Answers size (fun segment => ∀ header ∈ segment.sections, header.Fits size)
      (segmentCommand width start) := by
  unfold segmentCommand
  refine .bind .get fun file hfile => .bind (.seek _) fun _ _ => .bind (.fixedText 16) fun _ _ =>
    .bind (.word _) fun _ _ => .bind (.skip _) fun _ _ => .bind (.word _) fun _ _ =>
    .bind (.word _) fun _ _ => .bind (.skip _) fun _ _ => .bind (.word _) fun _ _ =>
    .bind (.word _) fun count _ => .bind (.skip _) fun _ _ => ?_
  dsimp only
  split
  · exact .bind (.throw (P := fun _ => False) _) fun _ h => h.elim
  rw [hfile, PointerSize.ofBytes?_bytes]
  exact .bind (.pure (P := fun _ => True) trivial) fun width _ =>
    .pure (((sectionHeader_answers width).times count).getD_on rfl)

theorem threadState_answers (start : Nat) : Answers size (fun _ => True) (threadState start) := by
  unfold threadState
  refine .bind (.seek _) fun _ _ => .bind (.word 4) fun count _ => ?_
  split
  · exact .bind (.throw (P := fun _ => False) _) fun _ h => h.elim
  · exact ((Answers.word 4).times count).mono fun _ _ => trivial

theorem symbolTableCommand_answers (start : Nat) :
    Answers size (fun _ => True) (symbolTableCommand start) := by
  unfold symbolTableCommand
  refine .bind .get fun file _ => .bind (.seek _) fun _ _ => .bind (.word 4) fun _ _ =>
    .bind (.word 4) fun _ _ => .bind (.word 4) fun _ _ => .bind (.skip 4) fun _ _ => ?_
  dsimp only
  split
  · exact .bind (.throw (P := fun _ => False) _) fun _ h => h.elim
  · exact .pure trivial

/-- Only commands for segments state sections. -/
theorem commandBody_answers (cpu start code : Nat) :
    Answers size (Command.Fits size) (commandBody cpu start code) := by
  unfold commandBody
  split
  · exact .bind (segmentCommand_answers .four start) fun _ h => .pure (by rintro _ ⟨⟩; exact h)
  · exact .bind (segmentCommand_answers .eight start) fun _ h => .pure (by rintro _ ⟨⟩; exact h)
  · exact .bind (symbolTableCommand_answers start) fun _ _ => .pure nofun
  · exact .bind (threadState_answers start) fun _ _ => .pure nofun
  · exact .bind (threadState_answers start) fun _ _ =>
      .bind (.ofExcept (P := fun _ => True) fun _ _ => trivial) fun _ _ => .pure nofun
  · exact .bind (.seek _) fun _ _ => .bind (.word 8) fun _ _ => .bind (.skip 8) fun _ _ =>
      .pure nofun
  · exact .bind (.seek _) fun _ _ => .bind (.skip _) fun _ _ => .pure nofun

theorem commands_answers (cpu count start : Nat) :
    Answers size (fun l => ∀ command ∈ l, command.Fits size) (commands cpu count start) := by
  induction count generalizing start with
  | zero => exact .pure fun _ h => absurd h List.not_mem_nil
  | succ count ih =>
      unfold commands
      refine .bind (.seek _) fun _ _ => .bind (.word 4) fun code _ => .bind (.word 4) fun next _ =>
        .bind .get fun file _ => ?_
      dsimp only
      split
      · exact .bind (.throw (P := fun _ => False) _) fun _ h => h.elim
      · exact .bind (commandBody_answers cpu start code) fun _ hcommand => .bind (ih _)
          fun _ hrest => .pure (List.forall_mem_cons.2 ⟨hcommand, hrest⟩)

theorem headersIn_answers (width : PointerSize) (order : ByteOrder) :
    Answers width Headers.WithinReach (headersIn width order) := by
  unfold headersIn
  refine .bind .get fun file _ => ?_
  dsimp only
  split
  · exact .bind (.throw (P := fun _ => False) _) fun _ h => h.elim
  refine .bind (.seek _) fun _ _ => .bind (.word 4) fun cpu _ => .bind (.skip _) fun _ _ =>
    .bind (.word 4) fun count _ => .bind (.word 4) fun size _ => ?_
  split
  · exact .bind (.throw (P := fun _ => False) _) fun _ h => h.elim
  refine .bind (commands_answers cpu count _) fun commands hcommands =>
    .bind (.ofExcept (P := fun _ => True) fun _ _ => trivial) fun entry _ => .pure ?_
  intro s hs
  obtain ⟨command, hcommand, hs⟩ := List.mem_flatMap.1 hs
  cases command with
  | segment segment =>
      obtain ⟨header, hheader, rfl⟩ := List.mem_map.1 hs
      have hfits := hcommands _ hcommand segment rfl header hheader
      have hsize := width.lt_reach hfits.size
      refine ⟨width.lt_reach hfits.address, ?_⟩
      dsimp only [sectionOf]
      split <;> omega
  | symbolTable _ | mainEntry _ | thread _ | other => exact absurd hs List.not_mem_nil

theorem withinReach_of_headers {data : ByteArray} {headers : Headers}
    (h : MachO.headers data = .ok headers) : headers.WithinReach := by
  unfold MachO.headers at h
  split at h
  · exact (headersIn_answers _ _).on rfl h
  · cases h

end MachO

theorem Headers.withinReach_of_ofBytes {data : ByteArray} {headers : Headers}
    (h : Headers.ofBytes data = .ok headers) : headers.WithinReach := by
  obtain ⟨format, -, h⟩ := exists_of_bind_eq_ok h
  cases format with
  | elf => exact Elf.withinReach_of_headers (eq_ok_of_mapError h)
  | pe =>
      obtain ⟨⟨file, optional, table⟩, htables, h⟩ := exists_of_bind_eq_ok h
      exact Pe.withinReach_of_headers (eq_ok_of_mapError htables) h
  | machO => exact MachO.withinReach_of_headers (eq_ok_of_mapError h)

theorem Image.withinReach_of_ofBytes {data : ByteArray} {image : Image}
    (h : Image.ofBytes data = .ok image) : image.WithinReach := by
  obtain ⟨headers, hheaders, rfl⟩ := exists_headers_of_ofBytes h
  exact Headers.withinReach_of_ofBytes hheaders

end GoImage
