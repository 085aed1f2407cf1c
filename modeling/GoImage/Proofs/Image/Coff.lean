import GoImage.Image.Coff
import GoImage.Proofs.Bytes.Text
import GoImage.Proofs.Bytes.Word
import GoImage.Proofs.Image.Content

/-! # Walking through a symbol table

A symbol table is gone through record by record, and each record states how many auxiliary ones
behind it are passed over. The walk ends with the table or at the first record that cannot be read,
and the first record of a name settles where its symbol lies. So what stands behind a record changes
nothing of what has been read up to it, unless it says of a symbol that it lies behind the last
address: then the run is aborted. -/

namespace GoImage.Coff

open Decoder

theorem lookup_filterMap_cons {α β γ : Type} [BEq β] [LawfulBEq β] {f : α → Option (β × γ)} {a : α}
    {l : List α} {b : β} (h : ∀ c, f a ≠ some (b, c)) :
    ((a :: l).filterMap f).lookup b = (l.filterMap f).lookup b := by
  cases hfa : f a with
  | none => rw [List.filterMap_cons_none hfa]
  | some p =>
      obtain ⟨b', c⟩ := p
      have hne : b ≠ b' := fun hb => h c (hb ▸ hfa)
      rw [List.filterMap_cons_some hfa, List.lookup_cons, beq_false_of_ne hne]

namespace Table

variable (table : Table)

/-! ## Records in their bytes -/

/-- Where a record stands in the file. -/
def place (i : Nat) : Nat :=
  table.offset + recordSize * i

/-- So many bytes of a record, from one of them on. -/
def bytes (i start width : Nat) : List UInt8 :=
  (table.data.data.toList.drop (table.place i + start)).take width

/-- The number in so many bytes of a record, least significant byte first. -/
def number (i start width : Nat) : Nat :=
  littleEndian (table.bytes i start width)

/-- Whether a record states where its name stands instead of the name. -/
def HasLongName (i : Nat) : Prop :=
  table.bytes i 0 4 = [0, 0, 0, 0]

/-- The bytes of a long name: from the stated place of the strings up to a zero byte. -/
def longName (i : Nat) : List UInt8 :=
  beforeZero (table.strings.data.toList.drop (table.number i 4 4))

/-- What a record is called. -/
inductive Named (i : Nat) : String → Prop
  | short (h : ¬ table.HasLongName i) :
      Named i (Utf8.lossy (beforeZero (table.bytes i 0 8)).toByteArray)
  | long {name : String} (h : table.HasLongName i)
      (hinside : table.number i 4 4 ≤ table.strings.size)
      (hname : table.longName i = textBytes name) : Named i name

/-- Whether a record can be read, and what its bytes say. -/
structure Readable (i : Nat) (r : Record) : Prop where
  inside : table.place i + recordSize ≤ table.data.size
  name : table.Named i r.name
  value : r.value = table.number i 8 4
  sectionNumber : r.sectionNumber = Int.bmod (table.number i 12 2) 0x10000
  auxiliary : r.auxiliary = table.number i 17 1

variable {table} {i : Nat}

theorem toList_extract_place (start width : Nat) :
    (table.data.extract (table.place i + start) (table.place i + start + width)).data.toList =
      table.bytes i start width := by
  rw [extract_eq_toByteArray, List.toList_data_toByteArray, bytes]

theorem decode_extract_place (start width : Nat) :
    ByteOrder.little.decode (table.data.extract (table.place i + start)
      (table.place i + start + width)).data.toList = table.number i start width :=
  congrArg littleEndian (toList_extract_place start width)

/-- The decision between the two kinds of names looks at the first four bytes of the field. -/
theorem toList_extract_field :
    ((table.data.extract (table.place i) (table.place i + 8)).extract 0 4).data.toList =
      table.bytes i 0 4 := by
  rw [ByteArray.extract_extract, Nat.add_zero, Nat.min_eq_left (by omega)]
  exact toList_extract_place 0 4

theorem readWord_field (h : table.place i + 8 ≤ table.data.size) :
    ByteOrder.little.readWord 4 (table.data.extract (table.place i) (table.place i + 8)) 4 =
      .ok (table.number i 4 4) := by
  rw [ByteOrder.readWord_extract .little h (by omega), ByteOrder.readWord, if_pos (by omega),
    toList_extract_place]
  rfl

theorem extract_field_untilZero :
    (table.data.extract (table.place i) (table.place i + 8)).extract 0
        (untilZero (table.data.extract (table.place i) (table.place i + 8)) 0) =
      (beforeZero (table.bytes i 0 8)).toByteArray := by
  rw [extract_untilZero (Nat.zero_le _), List.drop_zero]
  exact congrArg (fun bytes => (beforeZero bytes).toByteArray) (toList_extract_place 0 8)

theorem run_name_eq_ok_iff {c c' : Cursor} {name : String} (hdata : c.data = table.data)
    (hpos : c.pos = table.place i) :
    (Coff.name table.strings).run c = .ok name c' ↔
      table.place i + 8 ≤ table.data.size ∧ table.Named i name ∧
        c' = { c with pos := c.pos + 8 } := by
  unfold Coff.name
  simp only [run_bind_eq_ok_iff, run_take_eq_ok_iff, hdata, hpos]
  constructor
  · rintro ⟨field, _, ⟨hinside, rfl, rfl⟩, h⟩
    refine ⟨hinside, ?_⟩
    split at h
    · rename_i hlong
      simp only [run_bind_eq_ok_iff, run_ofExcept_eq_ok_iff, readWord_field hinside] at h
      obtain ⟨_, _, ⟨⟨⟩, rfl⟩, hname, rfl⟩ := h
      obtain ⟨hplace, hname⟩ := seek_text_on_eq_ok_iff.1 hname
      exact ⟨.long (toList_extract_field.symm.trans hlong) hplace hname, rfl⟩
    · rename_i hshort
      obtain ⟨rfl, rfl⟩ := run_pure_eq_ok_iff.1 h
      rw [extract_field_untilZero]
      exact ⟨.short fun hlong => hshort (toList_extract_field.trans hlong), rfl⟩
  · rintro ⟨hinside, hname, rfl⟩
    refine ⟨_, _, ⟨hinside, rfl, rfl⟩, ?_⟩
    cases hname with
    | short hshort =>
        rw [if_neg fun hlong => hshort (toList_extract_field.symm.trans hlong),
          extract_field_untilZero]
        rfl
    | long hlong hplace hname =>
        rw [if_pos (toList_extract_field.trans hlong)]
        simp only [run_bind_eq_ok_iff, run_ofExcept_eq_ok_iff, readWord_field hinside]
        exact ⟨_, _, ⟨rfl, rfl⟩, seek_text_on_eq_ok_iff.2 ⟨hplace, hname⟩, rfl⟩

theorem ofWord_i16 (n : Nat) : IntType.i16.ofWord n = Int.bmod n 0x10000 := by
  have hsigned : IntType.i16.signed = true := rfl
  have hmod : (1 <<< (8 * IntType.i16.width) : Nat) = 0x10000 := by decide
  rw [IntType.ofWord, if_pos hsigned, hmod]

/-- A record is read exactly as its bytes say. -/
theorem record?_eq_some_iff {r : Record} : table.record? i = some r ↔ table.Readable i r := by
  have hrecord : table.record? i = some r ↔
      (do seek (table.place i); record table.strings : Decoder Record).on { data := table.data } =
        .ok r :=
    ⟨eq_ok_of_toOption, fun h => congrArg Except.toOption h⟩
  have hwidth : IntType.i16.width = 2 := rfl
  rw [hrecord]
  simp only [on_eq_ok_iff, record, run_bind_eq_ok_iff, run_seek_eq_ok_iff, run_word_eq_ok_iff,
    run_int_eq_ok_iff, run_skip_eq_ok_iff, run_pure_eq_ok_iff, hwidth, ofWord_i16]
  constructor
  · rintro ⟨_, _, _, ⟨-, rfl⟩, name, _, hrun, value, _, ⟨-, hvalue, rfl⟩, number, _,
      ⟨-, hnumber, rfl⟩, _, _, ⟨-, rfl⟩, auxiliary, _, ⟨hinside, hauxiliary, rfl⟩, rfl, rfl⟩
    obtain ⟨-, hname, rfl⟩ := (run_name_eq_ok_iff rfl rfl).1 hrun
    simp only [Nat.add_assoc, Nat.reduceAdd] at hinside
    exact ⟨hinside, hname, hvalue.trans (decode_extract_place 8 4),
      hnumber.trans (congrArg (fun n : Nat => Int.bmod n 0x10000) (decode_extract_place 12 2)),
      hauxiliary.trans (decode_extract_place 17 1)⟩
  · rintro ⟨hinside, hname, hvalue, hnumber, hauxiliary⟩
    have hsize : table.place i + 18 ≤ table.data.size := hinside
    refine ⟨_, (), _, ⟨by omega, rfl⟩, r.name, _,
      (run_name_eq_ok_iff rfl rfl).2 ⟨by omega, hname, rfl⟩,
      r.value, _, ⟨?_, hvalue.trans (decode_extract_place 8 4).symm, rfl⟩,
      r.sectionNumber, _, ⟨?_, hnumber.trans ?_, rfl⟩, (), _, ⟨?_, rfl⟩,
      r.auxiliary, _, ⟨?_, hauxiliary.trans (decode_extract_place 17 1).symm, rfl⟩, rfl, rfl⟩
    · dsimp only
      omega
    · dsimp only
      omega
    · exact congrArg (fun n : Nat => Int.bmod n 0x10000) (decode_extract_place 12 2).symm
    · dsimp only
      omega
    · dsimp only
      omega

theorem Readable.unique {r r' : Record} (h : table.Readable i r) (h' : table.Readable i r') :
    r = r' :=
  Option.some.inj ((record?_eq_some_iff.2 h).symm.trans (record?_eq_some_iff.2 h'))

/-- A record cannot be read if it is not all in the file, or if its long name stands outside of the
strings or is no text. Short names can always be read. -/
theorem exists_readable_iff :
    (∃ r, table.Readable i r) ↔ table.place i + recordSize ≤ table.data.size ∧
      (table.HasLongName i → table.number i 4 4 ≤ table.strings.size ∧
        (table.longName i).toByteArray.IsValidUTF8) := by
  constructor
  · rintro ⟨r, hr⟩
    refine ⟨hr.inside, fun hlong => ?_⟩
    have hname := hr.name
    generalize r.name = name at hname
    cases hname with
    | short hshort => exact absurd hlong hshort
    | long _ hplace hname => exact ⟨hplace, hname ▸ isValidUTF8_textBytes name⟩
  · rintro ⟨hinside, hlong⟩
    have hname : ∃ name, table.Named i name := by
      by_cases h : table.HasLongName i
      · obtain ⟨hplace, hvalid⟩ := hlong h
        obtain ⟨name, hname⟩ := exists_textBytes_of_isValidUTF8 hvalid
        exact ⟨name, .long h hplace hname⟩
      · exact ⟨_, .short h⟩
    obtain ⟨name, hname⟩ := hname
    obtain ⟨number, hnumber⟩ : ∃ n, n = Int.bmod (table.number i 12 2) 0x10000 := ⟨_, rfl⟩
    exact ⟨⟨name, _, number, _⟩, hinside, hname, rfl, hnumber, rfl⟩

/-! ## The walk -/

/-- Whether the walk comes from one record to another, over readable records and the auxiliary ones
that they announce. -/
inductive Leads (table : Table) : Nat → Nat → Prop
  | here {i : Nat} (h : i < table.count) : Leads table i i
  | next {i j : Nat} {r : Record} (h : i < table.count) (hr : table.Readable i r)
      (hrest : Leads table (i + 1 + r.auxiliary) j) : Leads table i j

/-- Whether a record says where the symbol of a name lies: it has a name, and its section is one of
the image. -/
def Defines (table : Table) (sections : List Section) (i : Nat) (name : String) (va : Nat) : Prop :=
  ∃ r s, table.Readable i r ∧ r.name = name ∧ name ≠ "" ∧ 1 ≤ r.sectionNumber ∧
    sections[r.sectionNumber.toNat - 1]? = some s ∧ va = s.address + r.value

variable {sections : List Section} {j k : Nat} {r : Record} {name : String} {va : Nat}

theorem Leads.le (h : table.Leads i j) : i ≤ j := by
  induction h with
  | here => exact Nat.le_refl _
  | next _ _ _ ih => omega

theorem Leads.lt_count (h : table.Leads i j) : j < table.count := by
  induction h with
  | here h => exact h
  | next _ _ _ ih => exact ih

theorem leads_iff (h : i < table.count) (hr : table.Readable i r) :
    table.Leads i j ↔ j = i ∨ table.Leads (i + 1 + r.auxiliary) j := by
  constructor
  · intro hleads
    cases hleads with
    | here => exact .inl rfl
    | next _ hr' hrest => exact .inr (hr.unique hr' ▸ hrest)
  · rintro (rfl | hrest)
    · exact .here h
    · exact .next h hr hrest

theorem defines_iff (hr : table.Readable i r) :
    table.Defines sections i name va ↔ r.symbol? sections = some (name, va) := by
  have hsymbol : r.symbol? sections = some (name, va) ↔
      r.name = name ∧ name ≠ "" ∧ 1 ≤ r.sectionNumber ∧
        ∃ s, sections[r.sectionNumber.toNat - 1]? = some s ∧ va = s.address + r.value := by
    unfold Record.symbol?
    split
    · rename_i h
      constructor
      · intro hnone
        cases hnone
      · rintro ⟨rfl, hne, hnumber, -⟩
        rcases h with h | h
        · omega
        · exact absurd h hne
    · rename_i h
      rw [not_or] at h
      simp only [Option.map_eq_some_iff, Prod.mk.injEq]
      constructor
      · rintro ⟨s, hs, rfl, rfl⟩
        exact ⟨rfl, h.2, by omega, s, hs, rfl⟩
      · rintro ⟨rfl, -, -, s, hs, rfl⟩
        exact ⟨s, hs, rfl, rfl⟩
  rw [hsymbol]
  constructor
  · rintro ⟨r', s, hr', hname, hne, hnumber, hs, hva⟩
    obtain rfl := hr.unique hr'
    exact ⟨hname, hne, hnumber, s, hs, hva⟩
  · rintro ⟨hname, hne, hnumber, s, hs, hva⟩
    exact ⟨r, s, hr, hname, hne, hnumber, hs, hva⟩

theorem Defines.unique {va' : Nat} (h : table.Defines sections i name va)
    (h' : table.Defines sections i name va') : va = va' := by
  obtain ⟨r, s, hr, -⟩ := id h
  have hsymbol := ((defines_iff hr).1 h).symm.trans ((defines_iff hr).1 h')
  exact (Prod.mk.inj (Option.some.inj hsymbol)).2

/-- A record that says where the symbol of a name lies, the first such one on the walk. -/
structure Settles (table : Table) (sections : List Section) (start i : Nat) (name : String)
    (va : Nat) : Prop where
  reached : table.Leads start i
  defines : table.Defines sections i name va
  first : ∀ j < i, table.Leads start j → ∀ va', ¬ table.Defines sections j name va'

theorem not_leads_of_unreadable (hread : table.record? i = none) (hne : i ≠ j) :
    ¬ table.Leads i j := by
  intro hleads
  cases hleads with
  | here => exact hne rfl
  | next _ hr _ => exact nomatch (record?_eq_some_iff.2 hr).symm.trans hread

theorem not_defines_of_unreadable (hread : table.record? i = none) :
    ¬ table.Defines sections i name va := by
  rintro ⟨r, s, hr, -⟩
  exact nomatch (record?_eq_some_iff.2 hr).symm.trans hread

/-- Behind a record that says nothing of a name, it is settled as without that record. -/
theorem settles_next_iff (h : i < table.count) (hr : table.Readable i r)
    (hnot : ∀ va', ¬ table.Defines sections i name va') :
    table.Settles sections i j name va ↔
      table.Settles sections (i + 1 + r.auxiliary) j name va := by
  constructor
  · rintro ⟨hreached, hdefines, hfirst⟩
    rcases (leads_iff h hr).1 hreached with rfl | hrest
    · exact absurd hdefines (hnot va)
    · exact ⟨hrest, hdefines, fun k hk hleads => hfirst k hk ((leads_iff h hr).2 (.inr hleads))⟩
  · rintro ⟨hreached, hdefines, hfirst⟩
    refine ⟨(leads_iff h hr).2 (.inr hreached), hdefines, fun k hk hleads => ?_⟩
    rcases (leads_iff h hr).1 hleads with rfl | hrest
    · exact hnot
    · exact hfirst k hk hrest

/-- The records that are gone through are those that the walk comes to. -/
theorem mem_recordsFrom (table : Table) (i : Nat) (r : Record) :
    r ∈ table.recordsFrom i ↔ ∃ j, table.Leads i j ∧ table.Readable j r := by
  fun_induction recordsFrom table i with
  | case1 i hcount r' hread ih =>
      have hr := record?_eq_some_iff.1 hread
      rw [List.mem_cons, ih]
      constructor
      · rintro (rfl | ⟨j, hleads, hj⟩)
        · exact ⟨i, .here hcount, hr⟩
        · exact ⟨j, .next hcount hr hleads, hj⟩
      · rintro ⟨j, hleads, hj⟩
        rcases (leads_iff hcount hr).1 hleads with rfl | hrest
        · exact .inl (hj.unique hr)
        · exact .inr ⟨j, hrest, hj⟩
  | case2 i hcount hread =>
      refine iff_of_false List.not_mem_nil ?_
      rintro ⟨j, hleads, hj⟩
      by_cases hne : i = j
      · have hsome := record?_eq_some_iff.2 hj
        rw [← hne, hread] at hsome
        cases hsome
      · exact not_leads_of_unreadable hread hne hleads
  | case3 i hcount =>
      refine iff_of_false List.not_mem_nil ?_
      rintro ⟨j, hleads, -⟩
      exact hcount (Nat.lt_of_le_of_lt hleads.le hleads.lt_count)

theorem mem_filterMap_recordsFrom :
    (name, va) ∈ (table.recordsFrom i).filterMap (·.symbol? sections) ↔
      ∃ j, table.Leads i j ∧ table.Defines sections j name va := by
  rw [List.mem_filterMap]
  constructor
  · rintro ⟨r, hmem, hsymbol⟩
    obtain ⟨j, hleads, hr⟩ := (mem_recordsFrom table i r).1 hmem
    exact ⟨j, hleads, (defines_iff hr).2 hsymbol⟩
  · rintro ⟨j, hleads, hdefines⟩
    obtain ⟨r, s, hr, -⟩ := id hdefines
    exact ⟨r, (mem_recordsFrom table i r).2 ⟨j, hleads, hr⟩, (defines_iff hr).1 hdefines⟩

/-- The address of a name is the one of the record that settles it. -/
theorem lookup_recordsFrom (table : Table) (sections : List Section) (i : Nat) (name : String)
    (va : Nat) :
    ((table.recordsFrom i).filterMap (·.symbol? sections)).lookup name = some va ↔
      ∃ j, table.Settles sections i j name va := by
  fun_induction recordsFrom table i with
  | case1 i hcount r hread ih =>
      have hr := record?_eq_some_iff.1 hread
      by_cases hdefines : ∃ va', table.Defines sections i name va'
      · obtain ⟨va', hdefines⟩ := hdefines
        have hsymbol := (defines_iff hr).1 hdefines
        rw [List.filterMap_cons, hsymbol]
        dsimp only
        rw [List.lookup_cons_self, Option.some.injEq]
        constructor
        · rintro rfl
          exact ⟨i, .here hcount, hdefines, fun k hk hleads => absurd hleads.le (Nat.not_le.2 hk)⟩
        · rintro ⟨j, hreached, hj, hfirst⟩
          rcases Nat.eq_or_lt_of_le hreached.le with rfl | hlt
          · exact hdefines.unique hj
          · exact absurd hdefines (hfirst i hlt (.here hcount) va')
      · have hnot := not_exists.1 hdefines
        have hlookup : ((r :: table.recordsFrom (i + 1 + r.auxiliary)).filterMap
            (·.symbol? sections)).lookup name =
              ((table.recordsFrom (i + 1 + r.auxiliary)).filterMap
                (·.symbol? sections)).lookup name :=
          lookup_filterMap_cons fun va' h => hnot va' ((defines_iff hr).2 h)
        rw [hlookup, ih]
        exact exists_congr fun j => (settles_next_iff hcount hr hnot).symm
  | case2 i hcount hread =>
      refine iff_of_false (by simp) ?_
      rintro ⟨j, hreached, hdefines, -⟩
      by_cases hne : i = j
      · exact not_defines_of_unreadable (hne ▸ hread) hdefines
      · exact not_leads_of_unreadable hread hne hreached
  | case3 i hcount =>
      refine iff_of_false (by simp) ?_
      rintro ⟨j, hreached, -⟩
      exact hcount (Nat.lt_of_le_of_lt hreached.le hreached.lt_count)

/-- Of the records on the walk that say where the symbol of a name lies, one is the first. -/
theorem exists_settles (hreached : table.Leads 0 i) (hdefines : table.Defines sections i name va) :
    ∃ j ≤ i, ∃ va', table.Settles sections 0 j name va' := by
  induction i using Nat.strong_induction_on generalizing va with
  | _ i ih =>
      by_cases hearlier : ∃ j < i, table.Leads 0 j ∧ ∃ va', table.Defines sections j name va'
      · obtain ⟨j, hlt, hleads, va', hj⟩ := hearlier
        obtain ⟨k, hle, hk⟩ := ih j hlt hleads hj
        exact ⟨k, Nat.le_trans hle (Nat.le_of_lt hlt), hk⟩
      · exact ⟨i, Nat.le_refl i, va, hreached, hdefines,
          fun j hlt hleads va' hj => hearlier ⟨j, hlt, hleads, va', hj⟩⟩

/-! ## Tables that begin alike -/

/-- Whether two tables have the same records up to one. -/
def AlikeBelow (table other : Table) (k : Nat) : Prop :=
  ∀ i < k, ∀ r, table.Readable i r ↔ other.Readable i r

variable {other : Table}

theorem AlikeBelow.symm (h : table.AlikeBelow other k) : other.AlikeBelow table k :=
  fun i hi r => (h i hi r).symm

theorem AlikeBelow.defines_iff (h : table.AlikeBelow other k) (hlt : i < k) :
    table.Defines sections i name va ↔ other.Defines sections i name va := by
  unfold Defines
  simp only [h i hlt]

theorem AlikeBelow.leads (h : table.AlikeBelow other k) (hlt : j < k) (hcount : j < other.count)
    (hleads : table.Leads i j) : other.Leads i j := by
  induction hleads with
  | here => exact .here hcount
  | @next i j r _ hr hrest ih =>
      have hle : i ≤ j := by
        have := hrest.le
        omega
      exact .next (Nat.lt_of_le_of_lt hle hcount)
        ((h i (Nat.lt_of_le_of_lt hle hlt) r).1 hr) (ih hlt hcount)

theorem AlikeBelow.settles (h : table.AlikeBelow other k) (hlt : j < k) (hcount : k ≤ other.count)
    (hsettles : table.Settles sections i j name va) : other.Settles sections i j name va where
  reached := h.leads hlt (by omega) hsettles.reached
  defines := (h.defines_iff hlt).1 hsettles.defines
  first m hm hleads va' hdefines := by
    have hinside := hsettles.reached.lt_count
    exact hsettles.first m hm (h.symm.leads (by omega) (by omega) hleads) va'
      ((h.defines_iff (by omega)).2 hdefines)

/-! ## Symbols -/

/-- Whether every record on the walk that says where a symbol lies says an address. -/
def AllAtAddresses (table : Table) (sections : List Section) : Prop :=
  ∀ i name va, table.Leads 0 i → table.Defines sections i name va → va < wordModulus

theorem symbols_eq_ok_iff {symbols : Symbols} :
    table.symbols sections = .ok symbols ↔
      symbols = table.records.filterMap (·.symbol? sections) ∧
        ∀ symbol ∈ symbols, symbol.2 < wordModulus := by
  unfold Table.symbols
  constructor
  · intro h
    obtain ⟨⟨⟩, hcheck, h⟩ := exists_of_bind_eq_ok h
    obtain rfl := Except.ok.inj h
    exact ⟨rfl, forM_checkAddress_eq_ok_iff.1 hcheck⟩
  · rintro ⟨rfl, hcheck⟩
    dsimp only
    rw [forM_checkAddress_eq_ok_iff.2 hcheck]
    rfl

theorem symbols_eq_error_iff {e : Error} :
    table.symbols sections = .error e ↔
      e = .aborted ∧ ∃ symbol ∈ table.records.filterMap (·.symbol? sections),
        wordModulus ≤ symbol.2 := by
  unfold Table.symbols
  rw [bind_eq_error_iff, forM_checkAddress_eq_error_iff]
  exact or_iff_left fun ⟨_, _, h⟩ => nomatch h

theorem records_of_offset (hoffset : table.offset ≠ 0) : table.records = table.recordsFrom 0 :=
  if_neg hoffset

theorem forall_mem_symbols_iff (hoffset : table.offset ≠ 0) :
    (∀ symbol ∈ table.records.filterMap (·.symbol? sections), symbol.2 < wordModulus) ↔
      table.AllAtAddresses sections := by
  rw [records_of_offset hoffset]
  constructor
  · intro h i name va hleads hdefines
    exact h (name, va) (mem_filterMap_recordsFrom.2 ⟨i, hleads, hdefines⟩)
  · rintro h ⟨name, va⟩ hmem
    obtain ⟨i, hleads, hdefines⟩ := mem_filterMap_recordsFrom.1 hmem
    exact h i name va hleads hdefines

/-- There are symbols exactly if all of them lie at addresses. -/
theorem exists_symbols_iff (hoffset : table.offset ≠ 0) :
    (∃ symbols, table.symbols sections = .ok symbols) ↔ table.AllAtAddresses sections := by
  simp only [symbols_eq_ok_iff, exists_eq_left, forall_mem_symbols_iff hoffset]

theorem symbols_aborts_iff {e : Error} (hoffset : table.offset ≠ 0) :
    table.symbols sections = .error e ↔ e = .aborted ∧ ¬ table.AllAtAddresses sections := by
  rw [symbols_eq_error_iff, ← forall_mem_symbols_iff hoffset]
  simp only [not_forall, Nat.not_lt, exists_prop]

theorem lookup_symbols_eq_some_iff {symbols : Symbols} (hoffset : table.offset ≠ 0)
    (h : table.symbols sections = .ok symbols) :
    symbols.lookup name = some va ↔ ∃ i, table.Settles sections 0 i name va := by
  rw [(symbols_eq_ok_iff.1 h).1, records_of_offset hoffset]
  exact lookup_recordsFrom table sections 0 name va

/-- The symbols of a table are those of its records up to the first unreadable one, each name with
the address that its first record says. The run is aborted exactly if one of these records says of a
symbol that it lies behind the last address. What stands behind a record changes nothing of a name
that is settled up to it. -/
theorem lookup_symbols (table : Table) (sections : List Section) (hoffset : table.offset ≠ 0) :
    ((∃ symbols, table.symbols sections = .ok symbols) ↔ table.AllAtAddresses sections) ∧
    (∀ e, table.symbols sections = .error e ↔
      e = .aborted ∧ ¬ table.AllAtAddresses sections) ∧
    (∀ symbols, table.symbols sections = .ok symbols → ∀ name va,
      symbols.lookup name = some va ↔ ∃ i, table.Settles sections 0 i name va) ∧
    (∀ i, (∃ r, table.Readable i r) ↔ table.place i + recordSize ≤ table.data.size ∧
      (table.HasLongName i → table.number i 4 4 ≤ table.strings.size ∧
        (table.longName i).toByteArray.IsValidUTF8)) ∧
    ∀ other : Table, other.offset ≠ 0 → ∀ k ≤ other.count, table.AlikeBelow other k →
      ∀ symbols, table.symbols sections = .ok symbols →
      ∀ symbols', other.symbols sections = .ok symbols' →
      ∀ i < k, table.Leads 0 i → ∀ name va, table.Defines sections i name va →
        symbols'.lookup name = symbols.lookup name := by
  refine ⟨exists_symbols_iff hoffset, fun e => symbols_aborts_iff hoffset,
    fun symbols h name va => lookup_symbols_eq_some_iff hoffset h, fun i => exists_readable_iff, ?_⟩
  intro other hother k hk halike symbols h symbols' h' i hi hleads name va hdefines
  obtain ⟨j, hle, va', hsettles⟩ := exists_settles hleads hdefines
  rw [(lookup_symbols_eq_some_iff hoffset h).2 ⟨j, hsettles⟩]
  exact (lookup_symbols_eq_some_iff hother h').2 ⟨j, halike.settles (by omega) hk hsettles⟩

/-- The symbol `a` with an auxiliary record that would be the symbol `b`, then `main.main`, and
behind them a record with these bytes as its name. -/
def tableEndingIn (lastName : List UInt8) : Table where
  data := ⟨#[0, 0, 0, 0,
    97, 0, 0, 0, 0, 0, 0, 0, 16, 0, 0, 0, 1, 0, 0, 0, 0, 1,
    98, 0, 0, 0, 0, 0, 0, 0, 32, 0, 0, 0, 1, 0, 0, 0, 0, 0,
    0, 0, 0, 0, 4, 0, 0, 0, 64, 0, 0, 0, 2, 0, 0, 0, 0, 0] ++ lastName.toArray ++
    #[80, 0, 0, 0, 1, 0, 0, 0, 0, 0,
    14, 0, 0, 0, 109, 97, 105, 110, 46, 109, 97, 105, 110, 0]⟩
  offset := 4
  count := 4

/-- A table whose last record is called `c`. -/
def wholeTable : Table :=
  tableEndingIn [99, 0, 0, 0, 0, 0, 0, 0]

/-- A table whose last record has its name outside of the strings. -/
def damagedTable : Table :=
  tableEndingIn [0, 0, 0, 0, 255, 0, 0, 0]

def twoSections : List Section :=
  [{ name := ".text", address := 0x401000, size := 0x1000, offset := 0x400, fileSize := 0x1000,
      executable := true, writable := false, initialized := true },
    { name := ".data", address := 0x403000, size := 0x1000, offset := 0x1400, fileSize := 0x1000,
      executable := false, writable := true, initialized := true }]

/-- An auxiliary record is no symbol, and the record that cannot be read takes nothing from the
`main.main` before it. -/
theorem lookup_symbols_damagedTable :
    wholeTable.offset ≠ 0 ∧ damagedTable.offset ≠ 0 ∧ 3 ≤ damagedTable.count ∧
      wholeTable.AlikeBelow damagedTable 3 ∧ wholeTable.Leads 0 2 ∧
      wholeTable.Defines twoSections 2 "main.main" 0x403040 ∧
      (∀ r, ¬ damagedTable.Readable 3 r) ∧
      (∀ i va, ¬ wholeTable.Settles twoSections 0 i "b" va) ∧
      ∃ symbols, damagedTable.symbols twoSections = .ok symbols ∧
        symbols.lookup "main.main" = some 0x403040 := by
  have hwhole : wholeTable.record? 0 = some ⟨"a", 16, 1, 1⟩ ∧
      wholeTable.record? 1 = some ⟨"b", 32, 1, 0⟩ ∧
      wholeTable.record? 2 = some ⟨"main.main", 64, 2, 0⟩ := by
    decide +kernel
  have hdamaged : damagedTable.record? 0 = some ⟨"a", 16, 1, 1⟩ ∧
      damagedTable.record? 1 = some ⟨"b", 32, 1, 0⟩ ∧
      damagedTable.record? 2 = some ⟨"main.main", 64, 2, 0⟩ ∧ damagedTable.record? 3 = none := by
    decide +kernel
  have hsymbols : wholeTable.symbols twoSections =
      .ok [("a", 0x401010), ("main.main", 0x403040), ("c", 0x401050)] :=
    eq_ok_of_toOption (by decide +kernel)
  have hsymbols' : damagedTable.symbols twoSections =
      .ok [("a", 0x401010), ("main.main", 0x403040)] := eq_ok_of_toOption (by decide +kernel)
  obtain ⟨hfirst, hauxiliary, hmain⟩ := hwhole
  obtain ⟨hfirst', hauxiliary', hmain', hlast⟩ := hdamaged
  have halike : wholeTable.AlikeBelow damagedTable 3 := fun i hi r => by
    rw [← record?_eq_some_iff, ← record?_eq_some_iff]
    obtain rfl | rfl | rfl : i = 0 ∨ i = 1 ∨ i = 2 := by omega
    · rw [hfirst, hfirst']
    · rw [hauxiliary, hauxiliary']
    · rw [hmain, hmain']
  have hleads : wholeTable.Leads 0 2 :=
    .next (by decide) (record?_eq_some_iff.1 hfirst) (.here (by decide))
  have hdefines : wholeTable.Defines twoSections 2 "main.main" 0x403040 :=
    (defines_iff (record?_eq_some_iff.1 hmain)).2 (by decide)
  obtain ⟨-, -, hsettles, -, htail⟩ := lookup_symbols wholeTable twoSections (by decide)
  refine ⟨by decide, by decide, by decide, halike, hleads, hdefines, fun r hr => ?_,
    fun i va hi => ?_, _, hsymbols', ?_⟩
  · exact nomatch hlast.symm.trans (record?_eq_some_iff.2 hr)
  · exact nomatch (hsettles _ hsymbols "b" va).2 ⟨i, hi⟩
  · rw [htail damagedTable (by decide) 3 (by decide) halike _ hsymbols _ hsymbols' 2 (by decide)
      hleads _ _ hdefines]
    decide

/-- A section that begins sixteen bytes in front of the end of the address space. -/
def highSections : List Section :=
  [{ name := ".text", address := 0xfffffffffffffff0, size := 16, offset := 0x400, fileSize := 16
     executable := true, writable := false, initialized := true }]

/-- The symbol `a` would lie behind the last address. -/
theorem symbols_highSections :
    wholeTable.Leads 0 0 ∧ wholeTable.Defines highSections 0 "a" wordModulus ∧
      wholeTable.symbols highSections = .error .aborted := by
  have hfirst : wholeTable.record? 0 = some ⟨"a", 16, 1, 1⟩ := by decide +kernel
  have hleads : wholeTable.Leads 0 0 := .here (by decide)
  have hdefines : wholeTable.Defines highSections 0 "a" wordModulus :=
    (defines_iff (record?_eq_some_iff.1 hfirst)).2 (by decide)
  refine ⟨hleads, hdefines, (symbols_aborts_iff (by decide)).2 ⟨rfl, fun hall => ?_⟩⟩
  exact Nat.lt_irrefl wordModulus (hall 0 "a" wordModulus hleads hdefines)

end Table

end GoImage.Coff
