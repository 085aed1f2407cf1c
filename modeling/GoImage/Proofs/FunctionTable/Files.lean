import GoImage.FunctionTable.Files
import GoImage.Proofs.Bytes.Text
import GoImage.Proofs.Run

/-! # Going through the source files of a table

Since the second layout the file names of a table are strings that stand one behind the other, each
with a zero byte behind it. However many of them the header states, going through them ends with the
data, and what is read is what the bytes say: with their zero bytes the strings are the bytes up to
the place where the walk stops. -/

namespace GoImage.FunctionTable

open Decoder

/-! ## Strings in bytes -/

/-- The strings reproduce the bytes they are taken from: none of them holds a zero byte, and with a
zero byte behind each they are the part that is taken. At the end of the bytes the last zero byte
may be missing. There are no more strings than asked for, and fewer only if all bytes are taken. -/
structure Reproduces (count : Nat) (bytes : List UInt8) (strings : List (List UInt8))
    (taken : List UInt8) : Prop where
  length_le : strings.length ≤ count
  zero_notMem : ∀ s ∈ strings, 0 ∉ s
  isPrefix : taken <+: bytes
  joined : strings.flatMap (· ++ [0]) = taken ∨
    strings.flatMap (· ++ [0]) = taken ++ [0] ∧ taken = bytes ∧ strings.getLast? ≠ some []
  exhausted : strings.length < count → taken = bytes

/-- The strings as they are met from the front, with the bytes that are left behind them. -/
inductive Meets : Nat → List UInt8 → List (List UInt8) → List UInt8 → Prop
  | enough (bytes) : Meets 0 bytes [] bytes
  | exhausted (count) : Meets count [] [] []
  | closed {count s rest strings left} (h : 0 ∉ s) :
      Meets count rest strings left → Meets (count + 1) (s ++ 0 :: rest) (s :: strings) left
  | last {s} (count) (h : 0 ∉ s) (hne : s ≠ []) : Meets (count + 1) s [s] []

variable {count : Nat} {bytes left taken : List UInt8} {strings : List (List UInt8)}

theorem exists_meets (count : Nat) (bytes : List UInt8) :
    ∃ strings left, Meets count bytes strings left := by
  induction count generalizing bytes with
  | zero => exact ⟨[], bytes, .enough bytes⟩
  | succ count ih =>
      by_cases hzero : 0 ∈ bytes
      · obtain ⟨s, rest, rfl, hs⟩ := List.eq_append_cons_of_mem hzero
        obtain ⟨strings, left, hrest⟩ := ih rest
        exact ⟨s :: strings, left, .closed hs hrest⟩
      · by_cases hne : bytes = []
        · subst hne
          exact ⟨[], [], .exhausted _⟩
        · exact ⟨[bytes], [], .last count hzero hne⟩

theorem Meets.reproduces (h : Meets count bytes strings left) :
    ∃ taken, bytes = taken ++ left ∧ Reproduces count bytes strings taken := by
  induction h with
  | enough bytes =>
      exact ⟨[], rfl, by simp, by simp, List.nil_prefix, .inl rfl, by simp⟩
  | exhausted count =>
      exact ⟨[], rfl, by simp, by simp, List.nil_prefix, .inl rfl, by simp⟩
  | @closed count s rest strings left hs _ ih =>
      obtain ⟨taken, hrest, h⟩ := ih
      refine ⟨s ++ 0 :: taken, by simp [hrest], ?_, ?_, ?_, ?_, ?_⟩
      · exact Nat.succ_le_succ h.length_le
      · exact List.forall_mem_cons.2 ⟨hs, h.zero_notMem⟩
      · simpa using h.isPrefix
      · rcases h.joined with hjoined | ⟨hjoined, hall, hlast⟩
        · exact .inl (by simp [hjoined])
        · refine .inr ⟨by simp [hjoined], by rw [hall], ?_⟩
          cases strings with
          | nil => simp at hjoined
          | cons t strings => simpa using hlast
      · intro hlt
        rw [h.exhausted (Nat.lt_of_succ_lt_succ hlt)]
  | @last s count hs hne =>
      refine ⟨s, by simp, by simp, by simpa using hs, List.prefix_rfl, .inr ?_, fun _ => rfl⟩
      simpa using hne

theorem Reproduces.tail {s : List UInt8}
    (h : Reproduces (count + 1) (s ++ 0 :: bytes) (s :: strings) (s ++ 0 :: taken)) :
    Reproduces count bytes strings taken where
  length_le := Nat.le_of_succ_le_succ h.length_le
  zero_notMem := fun t ht => h.zero_notMem t (List.mem_cons_of_mem s ht)
  isPrefix := by simpa using h.isPrefix
  joined := by
    rcases h.joined with hjoined | ⟨hjoined, hall, hlast⟩
    · exact .inl (by simpa using hjoined)
    · refine .inr ⟨by simpa using hjoined, by simpa using hall, ?_⟩
      cases strings with
      | nil => simp at hjoined
      | cons t strings => simpa using hlast
  exhausted := fun hlt => by simpa using h.exhausted (Nat.succ_lt_succ hlt)

/-- A string ends at a zero byte that is taken with it, or with the bytes. -/
theorem Reproduces.head {s : List UInt8} (h : Reproduces count bytes (s :: strings) taken) :
    (∃ rest, taken = s ++ 0 :: rest) ∨ taken = s ∧ bytes = s ∧ strings = [] ∧ s ≠ [] := by
  rcases h.joined with hjoined | ⟨hjoined, hall, hlast⟩
  · exact .inl ⟨_, by simpa using hjoined.symm⟩
  · rw [List.flatMap_cons, List.append_assoc] at hjoined
    rcases List.eq_nil_or_concat strings with rfl | ⟨front, t, rfl⟩
    · have htaken : taken = s := by simpa using hjoined.symm
      exact .inr ⟨htaken, hall ▸ htaken, rfl, by simpa using hlast⟩
    · have hzero : taken ++ [0] = s ++ 0 :: (front.flatMap (· ++ [0]) ++ t) ++ [0] := by
        rw [← hjoined]
        simp
      exact .inl ⟨_, List.append_cancel_right hzero⟩

/-- So the strings that reproduce the bytes are the ones that are met. -/
theorem Reproduces.meets (h : Reproduces count bytes strings taken) :
    Meets count bytes strings (bytes.drop taken.length) := by
  induction strings generalizing count bytes taken with
  | nil =>
      have htaken : taken = [] := by
        rcases h.joined with hjoined | ⟨hjoined, -⟩
        · exact hjoined.symm
        · simp at hjoined
      subst htaken
      cases count with
      | zero => exact .enough bytes
      | succ count =>
          obtain rfl := h.exhausted (Nat.succ_pos count)
          exact .exhausted _
  | cons s strings ih =>
      obtain ⟨count, rfl⟩ := Nat.exists_eq_succ_of_ne_zero (Nat.ne_zero_of_lt h.length_le)
      have hs := h.zero_notMem s List.mem_cons_self
      rcases h.head with ⟨rest, rfl⟩ | ⟨rfl, rfl, rfl, hne⟩
      · obtain ⟨left, rfl⟩ := h.isPrefix
        rw [List.append_assoc, List.cons_append] at h
        have hrest := ih h.tail
        simp only [List.drop_left] at hrest ⊢
        simpa using Meets.closed hs hrest
      · rw [List.drop_length]
        exact .last count hs hne

theorem Meets.unique {strings' : List (List UInt8)} {left' : List UInt8}
    (h : Meets count bytes strings left) (h' : Meets count bytes strings' left') :
    strings = strings' ∧ left = left' := by
  induction h generalizing strings' left' with
  | enough bytes => cases h' <;> exact ⟨rfl, rfl⟩
  | exhausted count =>
      generalize hbytes : ([] : List UInt8) = bytes at h'
      cases h' with
      | enough => exact ⟨rfl, rfl⟩
      | exhausted => exact ⟨rfl, rfl⟩
      | closed => simp at hbytes
      | last count hs hne => exact absurd hbytes.symm hne
  | @closed count s rest strings left hs _ ih =>
      generalize hbytes : s ++ 0 :: rest = bytes at h'
      cases h' with
      | exhausted => simp at hbytes
      | @closed _ s' rest' _ _ hs' hrest =>
          have hhead : s = s' := by
            rw [← beforeZero_append_cons hs rest, hbytes, beforeZero_append_cons hs']
          subst hhead
          obtain rfl : rest = rest' := by simpa using hbytes
          obtain ⟨rfl, rfl⟩ := ih hrest
          exact ⟨rfl, rfl⟩
      | last count hs' hne => exact absurd (hbytes ▸ by simp) hs'
  | @last s count hs hne =>
      cases h' with
      | exhausted => exact absurd rfl hne
      | closed => exact absurd (by simp) hs
      | last => exact ⟨rfl, rfl⟩

theorem Reproduces.unique {strings' : List (List UInt8)} {taken' : List UInt8}
    (h : Reproduces count bytes strings taken) (h' : Reproduces count bytes strings' taken') :
    strings = strings' ∧ taken = taken' := by
  obtain ⟨hstrings, hleft⟩ := h.meets.unique h'.meets
  obtain ⟨left, rfl⟩ := h.isPrefix
  obtain ⟨left', hbytes⟩ := h'.isPrefix
  rw [List.drop_left, ← hbytes, List.drop_left] at hleft
  subst hleft
  exact ⟨hstrings, (List.append_cancel_right hbytes).symm⟩

/-! ## Reading them -/

section Walk

variable {c : Cursor}

theorem run_texts_of_atEnd (count : Nat) (h : c.data.size ≤ c.pos) :
    (texts count).run c = .ok [] c := by
  cases count with
  | zero => rfl
  | succ count => simp [texts, Cursor.atEnd, h]

theorem run_texts_succ (count : Nat) (h : c.pos < c.data.size) :
    (texts (count + 1)).run c =
      (do let file ← text; return file :: (← texts count) : Decoder (List String)).run c := by
  have hatEnd : c.atEnd = false := by simpa [Cursor.atEnd] using h
  rw [texts, EStateM.run_bind, EStateM.run_get]
  dsimp only
  rw [hatEnd]
  rfl

/-- Each text that is read takes at least one byte. -/
theorem remaining_lt_of_run_text {c' : Cursor} {file : String} (h : c.pos < c.data.size)
    (hrun : text.run c = .ok file c') : c'.remaining < c.remaining := by
  obtain ⟨-, rfl⟩ := (run_text_eq_ok_iff (Nat.le_of_lt h)).1 hrun
  unfold Cursor.remaining
  dsimp only
  omega

/-- As many rounds as there are bytes are enough. -/
theorem run_texts_of_remaining_le {n m : Nat} (hn : c.remaining ≤ n) (hm : c.remaining ≤ m) :
    (texts n).run c = (texts m).run c := by
  induction n generalizing m c with
  | zero =>
      have hend : c.data.size ≤ c.pos := Nat.le_of_sub_eq_zero (Nat.le_zero.1 hn)
      rw [run_texts_of_atEnd 0 hend, run_texts_of_atEnd m hend]
  | succ n ih =>
      rcases Nat.lt_or_ge c.pos c.data.size with h | hend
      · obtain ⟨m, rfl⟩ : ∃ m', m = m' + 1 :=
          Nat.exists_eq_succ_of_ne_zero (by unfold Cursor.remaining at hm; omega)
        rw [run_texts_succ n h, run_texts_succ m h, EStateM.run_bind, EStateM.run_bind]
        cases hrun : text.run c with
        | error e c' => rfl
        | ok file c' =>
            have hless := remaining_lt_of_run_text h hrun
            dsimp only
            rw [EStateM.run_bind, EStateM.run_bind,
              ih (m := m) (Nat.le_of_lt_succ (Nat.lt_of_lt_of_le hless hn))
                (Nat.le_of_lt_succ (Nat.lt_of_lt_of_le hless hm))]
      · rw [run_texts_of_atEnd _ hend, run_texts_of_atEnd m hend]

theorem run_texts_cons {c₁ c₂ : Cursor} {file : String} {files : List String}
    (h : c.pos < c.data.size) (hfile : text.run c = .ok file c₁)
    (hrest : (texts count).run c₁ = .ok files c₂) :
    (texts (count + 1)).run c = .ok (file :: files) c₂ := by
  rw [run_texts_succ count h, EStateM.run_bind, hfile]
  dsimp only
  rw [EStateM.run_bind, hrest]
  rfl

/-- Reading the string in front of a zero byte leads behind the zero byte. -/
theorem run_text_closed {s rest : List UInt8} {file : String} (hs : 0 ∉ s)
    (hpos : c.pos ≤ c.data.size) (hbytes : c.data.data.toList.drop c.pos = s ++ 0 :: rest)
    (hfile : textBytes file = s) :
    text.run c = .ok file { c with pos := c.pos + s.length + 1 } := by
  subst hfile
  have hlength := congrArg List.length hbytes
  simp only [List.length_drop, Array.length_toList, ByteArray.size_data, List.length_append,
    List.length_cons] at hlength
  rw [run_text_of_eq hpos (by rw [hbytes, beforeZero_append_cons hs]), Nat.min_eq_left (by omega)]

/-- Strings that are texts are read as these, up to the bytes that are left. -/
theorem run_texts_of_meets (h : Meets count bytes strings left) {files : List String}
    (hfiles : files.map textBytes = strings) (hpos : c.pos ≤ c.data.size)
    (hbytes : c.data.data.toList.drop c.pos = bytes) :
    (texts count).run c = .ok files { c with pos := c.data.size - left.length } := by
  have hlength : c.data.size - c.pos = bytes.length := by simp [← hbytes]
  induction h generalizing c files with
  | enough bytes =>
      obtain rfl := List.map_eq_nil_iff.1 hfiles
      rw [← hlength, Nat.sub_sub_self hpos]
      rfl
  | exhausted count =>
      obtain rfl := List.map_eq_nil_iff.1 hfiles
      rw [List.length_nil] at hlength ⊢
      have hend : c.data.size - 0 = c.pos := by omega
      rw [hend]
      exact run_texts_of_atEnd count (Nat.le_of_sub_eq_zero hlength)
  | @closed count s rest strings left hs _ ih =>
      obtain ⟨file, files, rfl, hfile, hfiles⟩ := List.map_eq_cons_iff.1 hfiles
      rw [List.length_append, List.length_cons] at hlength
      have hfirst := run_text_closed hs hpos hbytes hfile
      refine run_texts_cons (by omega) hfirst (ih hfiles ?_ ?_ ?_)
      · dsimp only
        omega
      · dsimp only
        rw [Nat.add_assoc, ← List.drop_drop, hbytes]
        simp
      · dsimp only
        omega
  | @last s count hs hne =>
      obtain ⟨file, files, rfl, hfile, hfiles⟩ := List.map_eq_cons_iff.1 hfiles
      obtain rfl := List.map_eq_nil_iff.1 hfiles
      have hpositive := List.length_pos_iff.2 hne
      have hfirst := run_text_of_eq hpos (by rw [hbytes, beforeZero_eq_self hs, hfile])
      rw [hfile, Nat.min_eq_right (by omega)] at hfirst
      exact run_texts_cons (by omega) hfirst (run_texts_of_atEnd count (Nat.le_refl _))

theorem run_texts_of_error {c₁ : Cursor} {e : Error} (h : c.pos < c.data.size)
    (hfile : text.run c = .error e c₁) : (texts (count + 1)).run c = .error e c₁ := by
  rw [run_texts_succ count h, EStateM.run_bind, hfile]

theorem run_texts_cons_error {c₁ c₂ : Cursor} {file : String} {e : Error}
    (h : c.pos < c.data.size) (hfile : text.run c = .ok file c₁)
    (hrest : (texts count).run c₁ = .error e c₂) :
    (texts (count + 1)).run c = .error e c₂ := by
  rw [run_texts_succ count h, EStateM.run_bind, hfile]
  dsimp only
  rw [EStateM.run_bind, hrest]

/-- The first string that is no text ends the walk, with an error that says where it stands. -/
theorem run_texts_of_meets_invalid (h : Meets count bytes strings left)
    {front back : List (List UInt8)} {s : List UInt8} (hstrings : strings = front ++ s :: back)
    (hfront : ∀ t ∈ front, t.toByteArray.IsValidUTF8) (hs : ¬ s.toByteArray.IsValidUTF8)
    (hpos : c.pos ≤ c.data.size) (hbytes : c.data.data.toList.drop c.pos = bytes) {start : Nat}
    (hstart : start = c.pos + (front.flatMap (· ++ [0])).length) :
    ∃ c', (texts count).run c =
      .error (.malformed (.text start (start + s.length) (Utf8.fault s.toByteArray))) c' := by
  have hlength : c.data.size - c.pos = bytes.length := by simp [← hbytes]
  induction h generalizing c front with
  | enough bytes => simp at hstrings
  | exhausted count => simp at hstrings
  | @closed count t rest strings left ht _ ih =>
      rw [List.length_append, List.length_cons] at hlength
      cases front with
      | nil =>
          obtain ⟨rfl, -⟩ := List.cons.inj hstrings
          obtain rfl : start = c.pos := hstart
          have hfirst := run_text_of_not_isValidUTF8 hpos
            (by rw [hbytes, beforeZero_append_cons ht]) hs
          exact ⟨_, run_texts_of_error (by omega) hfirst⟩
      | cons t' front =>
          obtain ⟨rfl, hrest⟩ := List.cons.inj hstrings
          obtain ⟨hvalid, hfront⟩ := List.forall_mem_cons.1 hfront
          obtain ⟨file, hfile⟩ := exists_textBytes_of_isValidUTF8 hvalid
          have hfirst := run_text_closed ht hpos hbytes hfile.symm
          simp only [List.flatMap_cons, List.length_append, List.length_singleton] at hstart
          obtain ⟨c', hc'⟩ := ih (c := { c with pos := c.pos + t.length + 1 }) hrest hfront
            (by dsimp only; omega)
            (by dsimp only; rw [Nat.add_assoc, ← List.drop_drop, hbytes]; simp)
            (by dsimp only; omega) (by dsimp only; omega)
          exact ⟨c', run_texts_cons_error (by omega) hfirst hc'⟩
  | @last t count ht hne =>
      obtain ⟨rfl, rfl, rfl⟩ : front = [] ∧ t = s ∧ back = [] := by
        cases front <;> simp_all
      obtain rfl : start = c.pos := hstart
      have hpositive := List.length_pos_iff.2 hne
      have hfirst := run_text_of_not_isValidUTF8 hpos
        (by rw [hbytes, beforeZero_eq_self ht]) hs
      exact ⟨_, run_texts_of_error (by omega) hfirst⟩

/-- The strings that are met are all texts, or there is a first one that is none. -/
theorem texts_or_first_invalid (strings : List (List UInt8)) :
    (∃ files : List String, files.map textBytes = strings) ∨
      ∃ front s back, strings = front ++ s :: back ∧
        (∀ t ∈ front, t.toByteArray.IsValidUTF8) ∧ ¬ s.toByteArray.IsValidUTF8 := by
  induction strings with
  | nil => exact .inl ⟨[], rfl⟩
  | cons s strings ih =>
      by_cases hs : s.toByteArray.IsValidUTF8
      · obtain ⟨file, rfl⟩ := exists_textBytes_of_isValidUTF8 hs
        rcases ih with ⟨files, rfl⟩ | ⟨front, t, back, rfl, hfront, ht⟩
        · exact .inl ⟨file :: files, rfl⟩
        · exact .inr ⟨_ :: front, t, back, rfl, List.forall_mem_cons.2 ⟨hs, hfront⟩, ht⟩
      · exact .inr ⟨[], s, strings, rfl, by simp, hs⟩

theorem run_texts_eq_ok_iff (hpos : c.pos ≤ c.data.size) {files : List String} {c' : Cursor} :
    (texts count).run c = .ok files c' ↔
      ∃ taken, Reproduces count (c.data.data.toList.drop c.pos) (files.map textBytes) taken ∧
        c' = { c with pos := c.pos + taken.length } := by
  have hok : ∀ {files : List String} {taken : List UInt8},
      Reproduces count (c.data.data.toList.drop c.pos) (files.map textBytes) taken →
      (texts count).run c = .ok files { c with pos := c.pos + taken.length } := by
    intro files taken h
    have hle := h.isPrefix.length_le
    rw [run_texts_of_meets h.meets rfl hpos rfl]
    simp only [List.length_drop, Array.length_toList, ByteArray.size_data] at hle ⊢
    have hstop : c.data.size - (c.data.size - c.pos - taken.length) = c.pos + taken.length := by
      omega
    rw [hstop]
  constructor
  · intro hrun
    obtain ⟨strings, left, hmeets⟩ := exists_meets count (c.data.data.toList.drop c.pos)
    rcases texts_or_first_invalid strings with
      ⟨files', rfl⟩ | ⟨front, s, back, hs, hfront, hinvalid⟩
    · obtain ⟨taken, -, h⟩ := hmeets.reproduces
      rw [hok h] at hrun
      cases hrun
      exact ⟨taken, h, rfl⟩
    · obtain ⟨c'', herror⟩ := run_texts_of_meets_invalid hmeets hs hfront hinvalid hpos rfl rfl
      rw [herror] at hrun
      cases hrun
  · rintro ⟨taken, h, rfl⟩
    exact hok h

/-- A walk fails at the first string that is no text. -/
theorem run_texts_eq_error_iff (hpos : c.pos ≤ c.data.size) {e : Error} :
    (∃ c', (texts count).run c = .error e c') ↔
      ∃ front s back taken,
        Reproduces count (c.data.data.toList.drop c.pos) (front ++ s :: back) taken ∧
        (∀ t ∈ front, t.toByteArray.IsValidUTF8) ∧ ¬ s.toByteArray.IsValidUTF8 ∧
        e = .malformed (.text (c.pos + (front.flatMap (· ++ [0])).length)
          (c.pos + (front.flatMap (· ++ [0])).length + s.length)
          (Utf8.fault s.toByteArray)) := by
  constructor
  · rintro ⟨c', hrun⟩
    obtain ⟨strings, left, hmeets⟩ := exists_meets count (c.data.data.toList.drop c.pos)
    obtain ⟨taken, -, h⟩ := hmeets.reproduces
    rcases texts_or_first_invalid strings with
      ⟨files, rfl⟩ | ⟨front, s, back, rfl, hfront, hinvalid⟩
    · rw [run_texts_eq_ok_iff hpos |>.2 ⟨taken, h, rfl⟩] at hrun
      cases hrun
    · obtain ⟨c'', herror⟩ := run_texts_of_meets_invalid hmeets rfl hfront hinvalid hpos rfl rfl
      rw [herror] at hrun
      cases hrun
      exact ⟨front, s, back, taken, h, hfront, hinvalid, rfl⟩
  · rintro ⟨front, s, back, taken, h, hfront, hinvalid, rfl⟩
    exact run_texts_of_meets_invalid h.meets rfl hfront hinvalid hpos rfl rfl

end Walk

/-! ## The files of a table -/

theorem decodeAt_of_lt {α : Type} {table : FunctionTable} {offset : Nat}
    (h : table.data.size < offset) (decoder : Decoder α) :
    table.decodeAt offset decoder = .error .outOfBounds := by
  unfold decodeAt Decoder.on
  rw [EStateM.run_bind, run_seek, if_pos h]

theorem decodeAt_of_le {α : Type} {table : FunctionTable} {offset : Nat}
    (h : offset ≤ table.data.size) (decoder : Decoder α) :
    table.decodeAt offset decoder = decoder.on
      { data := table.data, pos := offset, order := table.order
        pointerSize := table.header.pointerSize.bytes } := by
  unfold decodeAt Decoder.on
  rw [EStateM.run_bind, run_seek, if_neg (Nat.not_lt.2 h)]

theorem files_of_layout {table : FunctionTable} (h : table.header.layout ≠ .go1_2) :
    table.files = table.decodeAt table.header.filesOffset (texts table.header.fileCount) := by
  unfold FunctionTable.files
  dsimp only
  split
  · contradiction
  · rfl

theorem files_eq_ok_iff {table : FunctionTable} (h : table.header.layout ≠ .go1_2)
    {files : List String} :
    table.files = .ok files ↔ table.header.filesOffset ≤ table.data.size ∧
      ∃ taken, Reproduces table.header.fileCount
        (table.data.data.toList.drop table.header.filesOffset) (files.map textBytes) taken := by
  rw [files_of_layout h]
  rcases Nat.lt_or_ge table.data.size table.header.filesOffset with hlt | hle
  · simp [decodeAt_of_lt hlt, Nat.not_le.2 hlt]
  · rw [decodeAt_of_le hle, Decoder.on_eq_ok_iff]
    constructor
    · rintro ⟨c', hrun⟩
      obtain ⟨taken, hfiles, -⟩ := (run_texts_eq_ok_iff hle).1 hrun
      exact ⟨hle, taken, hfiles⟩
    · rintro ⟨-, taken, hfiles⟩
      exact ⟨_, (run_texts_eq_ok_iff hle).2 ⟨taken, hfiles, rfl⟩⟩

/-- The walk fails if it starts outside of the data, or at the first string that is no text. -/
theorem files_eq_error_iff {table : FunctionTable} (h : table.header.layout ≠ .go1_2) {e : Error} :
    let start := table.header.filesOffset
    table.files = .error e ↔ table.data.size < start ∧ e = .outOfBounds ∨
      start ≤ table.data.size ∧ ∃ front s back taken,
        Reproduces table.header.fileCount (table.data.data.toList.drop start)
          (front ++ s :: back) taken ∧
        (∀ t ∈ front, t.toByteArray.IsValidUTF8) ∧ ¬ s.toByteArray.IsValidUTF8 ∧
        e = .malformed (.text (start + (front.flatMap (· ++ [0])).length)
          (start + (front.flatMap (· ++ [0])).length + s.length) (Utf8.fault s.toByteArray)) := by
  intro start
  rw [files_of_layout h]
  rcases Nat.lt_or_ge table.data.size start with hlt | hle
  · rw [decodeAt_of_lt hlt]
    simp [hlt, Nat.not_le.2 hlt, eq_comm]
  · rw [decodeAt_of_le hle, Decoder.on_eq_error_iff, run_texts_eq_error_iff hle]
    simp [hle, Nat.not_lt.2 hle, start]

/-- As many rounds as there are bytes behind the offset are enough, whatever the header states. -/
theorem files_eq_min {table : FunctionTable} (h : table.header.layout ≠ .go1_2) :
    table.files = table.decodeAt table.header.filesOffset
      (texts (min table.header.fileCount
        (table.data.data.toList.drop table.header.filesOffset).length)) := by
  rw [files_of_layout h]
  rcases Nat.lt_or_ge table.data.size table.header.filesOffset with hlt | hle
  · rw [decodeAt_of_lt hlt, decodeAt_of_lt hlt]
  · rw [decodeAt_of_le hle, decodeAt_of_le hle, List.length_drop, Array.length_toList,
      ByteArray.size_data]
    rcases Nat.le_total table.header.fileCount (table.data.size - table.header.filesOffset)
      with hfew | hmany
    · rw [Nat.min_eq_left hfew]
    · rw [Nat.min_eq_right hmany]
      unfold Decoder.on
      rw [run_texts_of_remaining_le hmany (Nat.le_refl _)]
      rfl

/-- Since the second layout the files of a table are the strings that reproduce its bytes from the
offset of the file names on, up to where the walk stops. There is one way only to take the bytes
apart like this. The walk fails exactly if it starts outside of the data or one of the strings is no
text, and it takes no more rounds than there are bytes, whatever count the header states. -/
theorem files_reproduce {table : FunctionTable} (h : table.header.layout ≠ .go1_2) :
    let count := table.header.fileCount
    let start := table.header.filesOffset
    let bytes := table.data.data.toList.drop start
    table.files = table.decodeAt start (texts (min count bytes.length)) ∧
    ∃ met taken, Reproduces count bytes met taken ∧
      (∀ met' taken', Reproduces count bytes met' taken' → met' = met ∧ taken' = taken) ∧
      (∀ files, table.files = .ok files ↔
        start ≤ table.data.size ∧ files.map textBytes = met) ∧
      (∀ c : Cursor, c.data = table.data → c.pos = start → start ≤ table.data.size →
        ∀ files c', (texts count).run c = .ok files c' → c'.pos = start + taken.length) ∧
      ((∃ e, table.files = .error e) ↔
        table.data.size < start ∨ ∃ s ∈ met, ¬ s.toByteArray.IsValidUTF8) := by
  intro count start bytes
  obtain ⟨met, left, hmeets⟩ := exists_meets count bytes
  obtain ⟨taken, -, hmet⟩ := hmeets.reproduces
  refine ⟨files_eq_min h, met, taken, hmet, fun _ _ hmet' => hmet'.unique hmet,
    fun files => ?_, ?_, ?_⟩
  · rw [files_eq_ok_iff h]
    refine and_congr_right fun _ => ⟨?_, ?_⟩
    · rintro ⟨taken', hfiles⟩
      exact (hfiles.unique hmet).1
    · rintro rfl
      exact ⟨taken, hmet⟩
  · rintro ⟨data, _, order, size⟩ rfl rfl hle files c' hrun
    obtain ⟨taken', hfiles, rfl⟩ := (run_texts_eq_ok_iff hle).1 hrun
    rw [(hfiles.unique hmet).2]
  · simp only [files_eq_error_iff h]
    constructor
    · rintro ⟨e, ⟨hlt, -⟩ | ⟨-, front, s, back, taken', hmet', -, hs, -⟩⟩
      · exact .inl hlt
      · rw [← (hmet'.unique hmet).1]
        exact .inr ⟨s, by simp, hs⟩
    · rcases Nat.lt_or_ge table.data.size start with hlt | hle
      · exact fun _ => ⟨_, .inl ⟨hlt, rfl⟩⟩
      · rintro (hlt | ⟨s, hs, hinvalid⟩)
        · exact absurd hlt (Nat.not_lt.2 hle)
        · rcases texts_or_first_invalid met with ⟨files, rfl⟩ | ⟨front, t, back, rfl, hfront, ht⟩
          · obtain ⟨file, -, rfl⟩ := List.mem_map.1 hs
            exact absurd (isValidUTF8_textBytes file) hinvalid
          · exact ⟨_, .inr ⟨hle, front, t, back, taken, hmet, hfront, ht, rfl⟩⟩

/-- A table that states more files than any data hold, in data that end inside of a name. -/
def openTable : FunctionTable where
  header := { layout := .go1_20, va := 0, quantum := 1, pointerSize := .eight, functionCount := 0
              fileCount := 0xffffffffffffffff, filesOffset := 2, entriesOffset := 0 }
  order := .little
  data := ⟨#[0xff, 0xff, 0x61, 0x2e, 0x67, 0x6f, 0, 0, 0x62]⟩

/-- The empty name and the one without a zero byte are read like the first one. -/
theorem files_openTable :
    openTable.header.layout ≠ .go1_2 ∧ openTable.files = .ok ["a.go", "", "b"] := by
  have hlayout : openTable.header.layout ≠ .go1_2 := by decide
  obtain ⟨-, met, taken, -, hunique, hfiles, -⟩ := files_reproduce hlayout
  have hnames : Reproduces openTable.header.fileCount
      (openTable.data.data.toList.drop openTable.header.filesOffset)
      (["a.go", "", "b"].map textBytes) [0x61, 0x2e, 0x67, 0x6f, 0, 0, 0x62] :=
    ⟨by decide +kernel, by decide +kernel, by decide +kernel, .inr (by decide +kernel),
      fun _ => by decide +kernel⟩
  exact ⟨hlayout, (hfiles _).2 ⟨by decide +kernel, (hunique _ _ hnames).1⟩⟩

end GoImage.FunctionTable
