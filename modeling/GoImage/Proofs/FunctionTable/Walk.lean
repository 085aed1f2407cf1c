import GoImage.Proofs.FunctionTable.RoundTrip
import Mathlib.Data.List.Range
import Mathlib.Data.Nat.Find

/-! # Going through a function table

A table whose entries lie in its data is gone through from the first entry to the last one, whatever
the data hold. It is refused where an entry has a lower address than the one in front of it.
Otherwise every entry with a readable name gives a function, and no two functions overlap. -/

namespace GoImage.FunctionTable

open Decoder

/-! ## Entries and what they stand for -/

/-- The entries of a table, with the one that closes them. -/
def entries (table : FunctionTable) (fallback : Nat) : Except Error (List (Nat × Nat)) :=
  let header := table.header
  let textStart := if header.textStart = 0 then fallback else header.textStart
  table.decodeAt header.entriesOffset
    (Decoder.times (entry header.layout textStart) (header.functionCount + 1))

/-- The functions that entries stand for, as far as their names can be read. -/
def named (table : FunctionTable) (entries : List (Nat × Nat)) : List Function :=
  (entries.zip entries.tail).filterMap fun ((start, record), (stop, _)) =>
    (name table record).toOption.map (⟨start, stop, ·⟩)

theorem named_cons_cons (table : FunctionTable) (start record stop next : Nat)
    (rest : List (Nat × Nat)) :
    named table ((start, record) :: (stop, next) :: rest) =
      ((name table record).toOption.map (⟨start, stop, ·⟩)).toList ++
        named table ((stop, next) :: rest) := by
  unfold named
  rw [List.tail_cons, List.zip_cons_cons, List.filterMap_cons]
  dsimp only
  cases name table record <;> rfl

/-- All entries are gone through exactly if none has a lower address than the one in front of
it. -/
theorem functionsOf_eq_ok_iff {table : FunctionTable} {entries : List (Nat × Nat)}
    {functions : List Function} :
    functionsOf table entries = .ok functions ↔
      entries.IsChain (fun e e' => e.1 ≤ e'.1) ∧ functions = named table entries := by
  induction entries generalizing functions with
  | nil => simp [functionsOf, named, eq_comm]
  | cons first rest ih =>
      cases rest with
      | nil => simp [functionsOf, named, eq_comm]
      | cons second rest =>
          obtain ⟨start, record⟩ := first
          obtain ⟨stop, next⟩ := second
          rw [List.isChain_cons_cons, named_cons_cons]
          by_cases hlt : stop < start
          · simp [functionsOf, hlt]
          · cases hrest : functionsOf table ((stop, next) :: rest) with
            | error e =>
                have hchain : ¬ ((stop, next) :: rest).IsChain (fun e e' => e.1 ≤ e'.1) := by
                  intro h
                  cases hrest.symm.trans (ih.mpr ⟨h, rfl⟩)
                simp [functionsOf, hlt, hrest, hchain]
            | ok others =>
                obtain ⟨hchain, rfl⟩ := ih.mp hrest
                cases hname : name table record <;>
                  simp [functionsOf, hlt, hrest, hname, hchain, Except.toOption, eq_comm] <;> omega

/-- The first entry with a lower address than the one in front of it ends the walk. -/
theorem functionsOf_descending {table : FunctionTable} {start record : Nat → Nat}
    {first count i : Nat} (hfirst : first ≤ i) (hi : i < first + count)
    (hdescends : start (i + 1) < start i)
    (hbefore : ∀ j, first ≤ j → j < i → start j ≤ start (j + 1)) :
    functionsOf table ((List.range' first (count + 1)).map fun j => (start j, record j)) =
      .error (.functionTable (.descending (start i) (start (i + 1)))) := by
  induction count generalizing first with
  | zero => omega
  | succ count ih =>
      rw [List.range'_succ, List.range'_succ, List.map_cons, List.map_cons, functionsOf]
      rcases Nat.eq_or_lt_of_le hfirst with rfl | hlt
      · rw [if_pos hdescends]
      · have hle := hbefore first (Nat.le_refl first) hlt
        have hrest := ih hlt (by omega) fun j hj => hbefore j (by omega)
        rw [List.range'_succ, List.map_cons] at hrest
        rw [if_neg (Nat.not_lt.mpr hle), hrest]

/-! ## Entries by their numbers -/

section Numbered

variable (table : FunctionTable)

/-- The number in so many bytes at an offset. -/
def wordAt (width offset : Nat) : Nat :=
  table.order.decode (table.data.extract offset (offset + width)).data.toList

/-- Where an entry stands. -/
def entryOffset (i : Nat) : Nat :=
  table.header.entriesOffset + i * table.header.entrySize

/-- The two numbers of an entry. -/
def entryNumbers (i : Nat) : Nat × Nat :=
  let width := table.header.form.width
  (table.wordAt width (table.entryOffset i), table.wordAt width (table.entryOffset i + width))

/-- The address in an entry. -/
def entryStart (fallback i : Nat) : Nat :=
  table.header.form.address (table.header.codeStart fallback) (table.entryNumbers i).1

/-- The function of an entry, if its name can be read. It ends where the next entry starts. -/
def functionAt? (fallback i : Nat) : Option Function :=
  (name table (table.entryNumbers i).2).toOption.map
    (⟨table.entryStart fallback i, table.entryStart fallback (i + 1), ·⟩)

/-- Whether so many entries lie in the data. -/
def HasEntries (count : Nat) : Prop :=
  table.header.entriesOffset + count * table.header.entrySize ≤ table.data.size

variable {table}

theorem HasEntries.mono {count count' : Nat} (h : table.HasEntries count') (hle : count ≤ count') :
    table.HasEntries count :=
  Nat.le_trans (Nat.add_le_add_left (Nat.mul_le_mul_right _ hle) _) h

theorem wordAt_lt {width offset : Nat} (h : offset + width ≤ table.data.size) :
    table.wordAt width offset < 256 ^ width := by
  have hword : table.order.readWord width table.data offset = .ok (table.wordAt width offset) :=
    if_pos h
  exact ByteOrder.readWord_lt hword

/-- The bytes at an offset are those of their number. -/
theorem standsAt_wordAt {width offset : Nat} (h : offset + width ≤ table.data.size) :
    StandsAt (table.order.encode width (table.wordAt width offset)) table.data offset := by
  have hlength : (table.data.extract offset (offset + width)).data.toList.length = width := by
    simp
    omega
  have hencode := table.order.encode_decode (table.data.extract offset (offset + width)).data.toList
  rw [hlength] at hencode
  rw [wordAt, hencode, standsAt_iff, extract_eq_toByteArray, List.toList_data_toByteArray]
  exact ⟨by omega, List.take_prefix _ _⟩

theorem entrySize_eq (header : Header) :
    header.entrySize = header.form.width + header.form.width := by
  have hlength : (entryBytes .little header.form (0, 0)).length = header.entrySize :=
    length_entryBytes .little (0, 0)
  rw [← hlength, entryBytes, List.length_append, ByteOrder.length_encode]

theorem entryOffset_succ (i : Nat) :
    table.entryOffset (i + 1) = table.entryOffset i + table.header.entrySize := by
  rw [entryOffset, entryOffset, Nat.succ_mul, Nat.add_assoc]

theorem standsAt_entryNumbers {i : Nat} (h : table.HasEntries (i + 1)) :
    StandsAt (entryBytes table.order table.header.form (table.entryNumbers i)) table.data
      (table.entryOffset i) := by
  have hend : table.entryOffset (i + 1) ≤ table.data.size := h
  rw [entryOffset_succ, entrySize_eq] at hend
  apply standsAt_append.mpr
  rw [ByteOrder.length_encode]
  exact ⟨standsAt_wordAt (by omega), standsAt_wordAt (by omega)⟩

/-- As many entries as lie in the data stand there, one behind the other. -/
theorem standsAt_entries {count : Nat} (h : table.HasEntries count) :
    StandsAt (((List.range count).map table.entryNumbers).flatMap
      (entryBytes table.order table.header.form)) table.data table.header.entriesOffset := by
  induction count with
  | zero =>
      rw [HasEntries, Nat.zero_mul] at h
      exact standsAt_iff.mpr ⟨h, List.nil_prefix⟩
  | succ count ih =>
      have hlast := standsAt_entryNumbers h
      rw [List.range_succ, List.map_append, List.flatMap_append]
      apply standsAt_append.mpr
      rw [length_flatMap_entryBytes, List.length_map, List.length_range, List.map_singleton,
        List.flatMap_singleton]
      exact ⟨ih (h.mono count.le_succ), hlast⟩

theorem entryNumbers_lt {i : Nat} (h : table.HasEntries (i + 1)) :
    (table.entryNumbers i).1 < 256 ^ table.header.form.width ∧
      (table.entryNumbers i).2 < 256 ^ table.header.form.width := by
  have hend : table.entryOffset (i + 1) ≤ table.data.size := h
  rw [entryOffset_succ, entrySize_eq] at hend
  exact ⟨wordAt_lt (by omega), wordAt_lt (by omega)⟩

/-- All entries of a table that lie in its data are read, whatever they hold. -/
theorem entries_eq (fallback : Nat) (h : table.HasEntries (table.header.functionCount + 1)) :
    table.entries fallback =
      .ok ((List.range (table.header.functionCount + 1)).map fun i =>
        (table.entryStart fallback i, (table.entryNumbers i).2)) := by
  have hreads : Reads table.order table.header.pointerSize.bytes
      (times (entry table.header.layout (table.header.codeStart fallback))
        ((List.range (table.header.functionCount + 1)).map table.entryNumbers).length)
      (((List.range (table.header.functionCount + 1)).map table.entryNumbers).flatMap
        (entryBytes table.order table.header.form))
      (((List.range (table.header.functionCount + 1)).map table.entryNumbers).map fun numbers =>
        (table.header.form.address (table.header.codeStart fallback) numbers.1, numbers.2)) := by
    apply Reads.times
    intro numbers hnumbers
    obtain ⟨i, hi, rfl⟩ := List.mem_map.mp hnumbers
    have hlt := entryNumbers_lt (h.mono (List.mem_range.mp hi))
    exact reads_entry table.order _ hlt.1 hlt.2
  rw [List.length_map, List.length_range, List.map_map] at hreads
  exact decodeAt_of_standsAt hreads (standsAt_entries h)

theorem named_range (fallback n : Nat) :
    named table ((List.range (n + 1)).map fun i =>
      (table.entryStart fallback i, (table.entryNumbers i).2)) =
      (List.range n).filterMap (table.functionAt? fallback) := by
  have hzip : ∀ f : Nat → Nat × Nat,
      ((List.range (n + 1)).map f).zip ((List.range (n + 1)).map f).tail =
        (List.range n).map fun i => (f i, f (i + 1)) := by
    intro f
    apply List.ext_getElem
    · simp
    · intro i hi hi'
      simp
  rw [named, hzip, List.filterMap_map]
  rfl

end Numbered

/-! ## The whole walk -/

section Walk

variable {table : FunctionTable} {fallback : Nat}

/-- Whether no entry has a lower address than the one in front of it. -/
def Ascends (table : FunctionTable) (fallback : Nat) : Prop :=
  ∀ i < table.header.functionCount, table.entryStart fallback i ≤ table.entryStart fallback (i + 1)

/-- Whether there is an entry, and all of them lie in the data with the one that closes them. -/
def Fits (table : FunctionTable) : Prop :=
  1 ≤ table.header.functionCount ∧ table.HasEntries (table.header.functionCount + 1)

theorem entriesFit_iff : table.entriesFit = true ↔ table.Fits := by
  simp [entriesFit, Fits, HasEntries, Nat.one_le_iff_ne_zero]

theorem functions_of_not_fits (h : ¬ table.Fits) :
    table.functions fallback =
      .error (.functionTable (.functionCount table.header.functionCount table.data.size)) := by
  have hfit : table.entriesFit = false :=
    Bool.eq_false_iff.mpr fun hfit => h (entriesFit_iff.mp hfit)
  simp only [FunctionTable.functions, hfit]
  rfl

theorem functions_of_fits (h : table.Fits) :
    table.functions fallback =
      functionsOf table ((List.range (table.header.functionCount + 1)).map fun i =>
        (table.entryStart fallback i, (table.entryNumbers i).2)) := by
  have hentries := entries_eq fallback h.2
  unfold FunctionTable.entries at hentries
  simp only [FunctionTable.functions, entriesFit_iff.mpr h, hentries, bind, Except.bind]
  rfl

theorem isChain_entries_iff :
    ((List.range (table.header.functionCount + 1)).map fun i =>
        (table.entryStart fallback i, (table.entryNumbers i).2)).IsChain
      (fun e e' => e.1 ≤ e'.1) ↔ table.Ascends fallback := by
  rw [List.isChain_map, List.isChain_range_succ]
  rfl

/-- A table that fits is gone through exactly if it ascends. -/
theorem functions_eq_ok_iff {functions : List Function} :
    table.functions fallback = .ok functions ↔
      table.Fits ∧ table.Ascends fallback ∧
        functions = (List.range table.header.functionCount).filterMap
          (table.functionAt? fallback) := by
  by_cases hfits : table.Fits
  · rw [functions_of_fits hfits, functionsOf_eq_ok_iff, isChain_entries_iff, named_range]
    simp [hfits]
  · rw [functions_of_not_fits hfits]
    simp [hfits]

theorem exists_entries_of_functions {functions : List Function}
    (h : table.functions fallback = .ok functions) :
    ∃ entries, table.entries fallback = .ok entries ∧ functions = named table entries := by
  obtain ⟨hfits, -, rfl⟩ := functions_eq_ok_iff.mp h
  exact ⟨_, entries_eq fallback hfits.2, (named_range fallback _).symm⟩

/-- Where a table does not ascend, there is a first entry that descends. -/
theorem exists_descending (h : ¬ table.Ascends fallback) :
    ∃ i < table.header.functionCount,
      table.entryStart fallback (i + 1) < table.entryStart fallback i ∧
      ∀ j < i, table.entryStart fallback j ≤ table.entryStart fallback (j + 1) := by
  simp only [Ascends, not_forall, Nat.not_le] at h
  obtain ⟨i, ⟨hi, hdescends⟩, hleast⟩ := Nat.findX h
  refine ⟨i, hi, hdescends, fun j hj => ?_⟩
  have hascends := hleast j hj
  simp only [not_exists, Nat.not_lt] at hascends
  exact hascends (Nat.lt_trans hj hi)

theorem functions_of_descending {i : Nat} (hfits : table.Fits)
    (hi : i < table.header.functionCount)
    (hdescends : table.entryStart fallback (i + 1) < table.entryStart fallback i)
    (hbefore : ∀ j < i, table.entryStart fallback j ≤ table.entryStart fallback (j + 1)) :
    table.functions fallback =
      .error (.functionTable (.descending (table.entryStart fallback i)
        (table.entryStart fallback (i + 1)))) := by
  rw [functions_of_fits hfits, List.range_eq_range']
  exact functionsOf_descending (Nat.zero_le i) (by omega) hdescends fun j _ => hbefore j

/-- A table that is not gone through is refused for its size, or else for its first entry that
descends. -/
theorem functions_eq_error_iff {e : Error} :
    table.functions fallback = .error e ↔
      ¬ table.Fits ∧
        e = .functionTable (.functionCount table.header.functionCount table.data.size) ∨
      table.Fits ∧ ∃ i < table.header.functionCount,
        table.entryStart fallback (i + 1) < table.entryStart fallback i ∧
        (∀ j < i, table.entryStart fallback j ≤ table.entryStart fallback (j + 1)) ∧
        e = .functionTable (.descending (table.entryStart fallback i)
          (table.entryStart fallback (i + 1))) := by
  constructor
  · intro he
    by_cases hfits : table.Fits
    · have hdescends : ¬ table.Ascends fallback := fun hascends => by
        cases he.symm.trans (functions_eq_ok_iff.mpr ⟨hfits, hascends, rfl⟩)
      obtain ⟨i, hi, hlt, hbefore⟩ := exists_descending hdescends
      have heq := he.symm.trans (functions_of_descending hfits hi hlt hbefore)
      exact .inr ⟨hfits, i, hi, hlt, hbefore, Except.error.inj heq⟩
    · have heq := he.symm.trans (functions_of_not_fits hfits)
      exact .inl ⟨hfits, Except.error.inj heq⟩
  · rintro (⟨hfits, rfl⟩ | ⟨hfits, i, hi, hlt, hbefore, rfl⟩)
    · exact functions_of_not_fits hfits
    · exact functions_of_descending hfits hi hlt hbefore

/-- A table that ascends step by step ascends as a whole. -/
theorem Ascends.entryStart_le (h : table.Ascends fallback) {i j : Nat} (hij : i ≤ j)
    (hj : j ≤ table.header.functionCount) :
    table.entryStart fallback i ≤ table.entryStart fallback j := by
  induction j, hij using Nat.le_induction with
  | base => exact Nat.le_refl _
  | succ j hij ih => exact Nat.le_trans (ih (by omega)) (h j (by omega))

theorem start_stop_of_functionAt? {i : Nat} {f : Function}
    (h : table.functionAt? fallback i = some f) :
    f.start = table.entryStart fallback i ∧ f.stop = table.entryStart fallback (i + 1) := by
  obtain ⟨text, -, rfl⟩ := Option.map_eq_some_iff.mp h
  exact ⟨rfl, rfl⟩

/-- Every function ends where the next entry starts, so that later ones start no earlier. -/
theorem Ascends.pairwise (h : table.Ascends fallback) :
    ((List.range table.header.functionCount).filterMap (table.functionAt? fallback)).Pairwise
      (fun f g => f.stop ≤ g.start) := by
  rw [List.pairwise_filterMap]
  refine List.pairwise_lt_range.imp_of_mem fun {i j} _ hj hij f hf g hg => ?_
  rw [(start_stop_of_functionAt? hf).2, (start_stop_of_functionAt? hg).1]
  exact h.entryStart_le hij (Nat.le_of_lt (List.mem_range.mp hj))

/-- All functions of a table are read exactly if there is an entry, all entries lie in the data with
the one that closes them, and none has a lower address than the one in front of it. Sums and
products are exact here; what 64 bits cannot hold is more than any data. Any failure is one of the
table: for its size, or for its first descending entry. Entries that lie in the data are all read.
The functions are then those of the entries with readable names, in their order; none ends before it
starts, and none starts before an earlier one has ended. -/
theorem functions_iff (table : FunctionTable) (fallback : Nat) :
    let n := table.header.functionCount
    let start := table.entryStart fallback
    let fits := table.header.entriesOffset + (n + 1) * table.header.entrySize ≤ table.data.size
    ((∃ functions, table.functions fallback = .ok functions) ↔
      1 ≤ n ∧ fits ∧ ∀ i < n, start i ≤ start (i + 1)) ∧
    (∀ e, table.functions fallback = .error e ↔
      ¬ (1 ≤ n ∧ fits) ∧ e = .functionTable (.functionCount n table.data.size) ∨
      (1 ≤ n ∧ fits) ∧ ∃ i < n, start (i + 1) < start i ∧ (∀ j < i, start j ≤ start (j + 1)) ∧
        e = .functionTable (.descending (start i) (start (i + 1)))) ∧
    (fits → table.entries fallback =
      .ok ((List.range (n + 1)).map fun i => (start i, (table.entryNumbers i).2))) ∧
    ∀ functions, table.functions fallback = .ok functions →
      functions = (List.range n).filterMap (table.functionAt? fallback) ∧
      (∀ f ∈ functions, f.start ≤ f.stop) ∧
      functions.Pairwise (fun f g => f.stop ≤ g.start) ∧
      functions.length ≤ n := by
  intro n start fits
  refine ⟨?_, fun e => functions_eq_error_iff, entries_eq fallback,
    fun functions hfunctions => ?_⟩
  · constructor
    · rintro ⟨functions, hfunctions⟩
      obtain ⟨⟨hn, hfits⟩, hascends, -⟩ := functions_eq_ok_iff.mp hfunctions
      exact ⟨hn, hfits, hascends⟩
    · rintro ⟨hn, hfits, hascends⟩
      exact ⟨_, functions_eq_ok_iff.mpr ⟨⟨hn, hfits⟩, hascends, rfl⟩⟩
  · obtain ⟨-, hascends, rfl⟩ := functions_eq_ok_iff.mp hfunctions
    refine ⟨rfl, fun f hf => ?_, hascends.pairwise, ?_⟩
    · obtain ⟨i, hi, hf⟩ := List.mem_filterMap.mp hf
      obtain ⟨hstart, hstop⟩ := start_stop_of_functionAt? hf
      rw [hstart, hstop]
      exact hascends i (List.mem_range.mp hi)
    · have hlength := List.length_filterMap_le (table.functionAt? fallback) (List.range n)
      rwa [List.length_range] at hlength

end Walk

end GoImage.FunctionTable
