import GoImage.Proofs.Bytes.Varint
import Mathlib.Data.Nat.Bitwise

/-! # Reading groups

What is read as a number of variable length, whatever the bytes are: the groups up to the first byte
without the top bit, if there are at most ten of them and their value fits into a word. Putting the
groups together in a word by shifts comes to the same, and no shift moves anything out of the
word. -/

namespace GoImage

/-! ## Groups -/

/-- Bytes after each of which another group follows. -/
def Continued (bytes : List UInt8) : Prop :=
  ∀ b ∈ bytes, 128 ≤ b.toNat

/-- Groups to the last one, which is the only byte without the top bit. -/
inductive IsVarint : List UInt8 → Prop
  | last {b : UInt8} (h : b.toNat < 128) : IsVarint [b]
  | more {b : UInt8} {rest : List UInt8} (h : 128 ≤ b.toNat) (hrest : IsVarint rest) :
      IsVarint (b :: rest)

/-- The number that groups of seven bits make up, least significant first, however many there
are. -/
def groupsValue : List UInt8 → Nat
  | [] => 0
  | b :: rest => b.toNat % 128 + 128 * groupsValue rest

theorem groupsValue_append (front rest : List UInt8) :
    groupsValue (front ++ rest) =
      groupsValue front + 128 ^ front.length * groupsValue rest := by
  induction front with
  | nil => simp [groupsValue]
  | cons b front ih =>
      rw [List.cons_append, groupsValue, ih, groupsValue, List.length_cons, Nat.pow_succ',
        Nat.mul_add, Nat.mul_assoc, Nat.add_assoc]

theorem groupsValue_lt (groups : List UInt8) : groupsValue groups < 128 ^ groups.length := by
  induction groups with
  | nil => simp [groupsValue]
  | cons b groups ih =>
      have hb : b.toNat % 128 < 128 := Nat.mod_lt _ (by decide)
      rw [groupsValue, List.length_cons, Nat.pow_succ']
      omega

theorem Continued.of_cons {b : UInt8} {bytes : List UInt8} (h : Continued (b :: bytes)) :
    128 ≤ b.toNat ∧ Continued bytes :=
  List.forall_mem_cons.1 h

theorem IsVarint.length_pos {groups : List UInt8} (h : IsVarint groups) : 0 < groups.length := by
  cases h <;> exact Nat.zero_lt_succ _

theorem IsVarint.exists_last {groups : List UInt8} (h : IsVarint groups) :
    ∃ front b, groups = front ++ [b] ∧ Continued front ∧ b.toNat < 128 := by
  induction h with
  | @last b h => exact ⟨[], b, rfl, fun _ hb => absurd hb List.not_mem_nil, h⟩
  | @more b _ h _ ih =>
      obtain ⟨front, last, rfl, hfront, hlast⟩ := ih
      exact ⟨b :: front, last, rfl, List.forall_mem_cons.2 ⟨h, hfront⟩, hlast⟩

/-- Either the groups come to an end within the bytes, or the bytes end within the groups. -/
theorem continued_or_exists_isVarint (bytes : List UInt8) :
    Continued bytes ∨ ∃ groups rest, bytes = groups ++ rest ∧ IsVarint groups := by
  induction bytes with
  | nil => exact .inl fun _ hb => absurd hb List.not_mem_nil
  | cons b bytes ih =>
      rcases Nat.lt_or_ge b.toNat 128 with hb | hb
      · exact .inr ⟨[b], bytes, rfl, .last hb⟩
      · rcases ih with hbytes | ⟨groups, rest, rfl, hgroups⟩
        · exact .inl (List.forall_mem_cons.2 ⟨hb, hbytes⟩)
        · exact .inr ⟨b :: groups, rest, rfl, .more hb hgroups⟩

/-! ## What is read -/

/-- What is read of bytes, with the count of bytes that this takes. -/
inductive ReadsVarint : List UInt8 → Except Error Nat × Nat → Prop
  | number {groups : List UInt8} (rest : List UInt8) (h : IsVarint groups)
      (hlength : groups.length ≤ 10) (hfits : groupsValue groups < wordModulus) :
      ReadsVarint (groups ++ rest) (.ok (groupsValue groups), groups.length)
  | short {bytes : List UInt8} (h : Continued bytes) (hlength : bytes.length < 10) :
      ReadsVarint bytes (.error .outOfBounds, bytes.length)
  | overflow {front : List UInt8} {b : UInt8} (rest : List UInt8) (h : Continued front)
      (hlength : front.length = 9) (hb : 1 < b.toNat) :
      ReadsVarint (front ++ b :: rest) (.error (.malformed .varintOverflow), 10)

/-- Nine groups fit into a word, and a tenth one if it is one bit. -/
theorem groupsValue_concat_lt_iff {front : List UInt8} {b : UInt8} (hlength : front.length = 9)
    (hb : b.toNat < 128) : groupsValue (front ++ [b]) < wordModulus ↔ b.toNat ≤ 1 := by
  have hfront := groupsValue_lt front
  rw [hlength] at hfront
  have hlast : groupsValue [b] = b.toNat := by
    rw [groupsValue, groupsValue, Nat.mod_eq_of_lt hb]
    rfl
  rw [groupsValue_append, hlength, hlast]
  have hpow : 128 ^ 9 = 0x8000000000000000 := by decide
  rw [hpow] at hfront ⊢
  unfold wordModulus
  omega

/-- The tenth of so many groups has its top bit set, too. -/
theorem Continued.exists_overflow {front : List UInt8} (h : Continued front)
    (hlength : 9 < front.length) (rest : List UInt8) : ∃ r, ReadsVarint (front ++ rest) r := by
  obtain ⟨b, more, hdrop⟩ := List.exists_cons_of_length_pos
    (show 0 < (front.drop 9).length by rw [List.length_drop]; omega)
  have hsplit : front = front.take 9 ++ b :: more := by
    rw [← hdrop, List.take_append_drop]
  have hnine : Continued (front.take 9) := fun b hb => h b (List.mem_of_mem_take hb)
  have hb : 128 ≤ b.toNat := h b (hsplit ▸ List.mem_append_right _ List.mem_cons_self)
  rw [hsplit, List.append_assoc, List.cons_append]
  exact ⟨_, .overflow _ hnine (by rw [List.length_take]; omega) (by omega)⟩

theorem exists_readsVarint (bytes : List UInt8) : ∃ r, ReadsVarint bytes r := by
  rcases continued_or_exists_isVarint bytes with hbytes | ⟨groups, rest, rfl, hgroups⟩
  · rcases Nat.lt_or_ge bytes.length 10 with hlength | hlength
    · exact ⟨_, .short hbytes hlength⟩
    · simpa using hbytes.exists_overflow hlength []
  · obtain ⟨front, b, rfl, hfront, hb⟩ := hgroups.exists_last
    have hcount : (front ++ [b]).length = front.length + 1 := by simp
    rcases Nat.lt_trichotomy front.length 9 with hlength | hlength | hlength
    · have hvalue := groupsValue_lt (front ++ [b])
      have hpow : 128 ^ (front ++ [b]).length ≤ 128 ^ 9 :=
        Nat.pow_le_pow_right (by decide) (by omega)
      have hword : 128 ^ 9 < wordModulus := by decide
      exact ⟨_, .number rest hgroups (by omega) (by omega)⟩
    · rcases Nat.lt_or_ge 1 b.toNat with hone | hone
      · rw [List.append_assoc, List.singleton_append]
        exact ⟨_, .overflow rest hfront hlength hone⟩
      · exact ⟨_, .number rest hgroups (by omega) ((groupsValue_concat_lt_iff hlength hb).2 hone)⟩
    · rw [List.append_assoc]
      exact hfront.exists_overflow hlength _

/-! ## Reading -/

/-- Groups whose value fits into a word are read from wherever in the word they start. -/
theorem IsVarint.varintGroups_eq {groups : List UInt8} (h : IsVarint groups) (rest : List UInt8)
    {shift : Nat} (hlength : shift + 7 * groups.length ≤ 70)
    (hfits : groupsValue groups <<< shift < wordModulus) :
    varintGroups shift (groups ++ rest) =
      (.ok (groupsValue groups <<< shift), groups.length) := by
  induction h generalizing shift with
  | @last b hb =>
      have hvalue : groupsValue [b] = b.toNat := by
        rw [groupsValue, groupsValue, Nat.mod_eq_of_lt hb]
        rfl
      rw [hvalue] at hfits ⊢
      refine varintGroups_of_lt _ hb ?_
      rintro rfl
      rw [Nat.shiftLeft_eq] at hfits
      unfold wordModulus at hfits
      omega
  | @more b groups hb hrest ih =>
      have hpos := hrest.length_pos
      rw [List.length_cons] at hlength
      have hshift : shift ≠ 63 := by omega
      have hgroups : (b.toNat - 128) <<< shift + groupsValue groups <<< (shift + 7) =
          groupsValue (b :: groups) <<< shift := by
        have hlow : b.toNat % 128 = b.toNat - 128 := by
          have := b.toNat_lt
          omega
        have hpow : 128 * groupsValue groups * 2 ^ shift =
            groupsValue groups * (2 ^ shift * 2 ^ 7) := by
          rw [Nat.mul_comm 128, Nat.mul_assoc, Nat.mul_comm 128]
          rfl
        rw [groupsValue, hlow, Nat.shiftLeft_eq, Nat.shiftLeft_eq, Nat.shiftLeft_eq, Nat.pow_add,
          Nat.add_mul, hpow]
      have hrest := ih (by omega) (Nat.lt_of_le_of_lt (hgroups ▸ Nat.le_add_left _ _) hfits)
      rw [List.cons_append, varintGroups_of_ge hb hshift hrest, hgroups, List.length_cons]

theorem Continued.varintGroups_eq {bytes : List UInt8} (h : Continued bytes) {shift : Nat}
    (hlength : shift + 7 * bytes.length ≤ 63) :
    varintGroups shift bytes = (.error .outOfBounds, bytes.length) := by
  induction bytes generalizing shift with
  | nil => rfl
  | cons b bytes ih =>
      obtain ⟨hb, hbytes⟩ := h.of_cons
      rw [List.length_cons] at hlength
      rw [varintGroups_cons_of_ge hb (by omega), ih hbytes (by omega)]
      rfl

theorem Continued.varintGroups_append {front : List UInt8} (h : Continued front) {b : UInt8}
    (hb : 1 < b.toNat) (rest : List UInt8) {shift : Nat} (hlength : shift + 7 * front.length = 63) :
    varintGroups shift (front ++ b :: rest) =
      (.error (.malformed .varintOverflow), front.length + 1) := by
  induction front generalizing shift with
  | nil =>
      have hover : shift = 63 ∧ 1 < b := ⟨hlength, hb⟩
      simp only [List.nil_append, varintGroups, if_pos hover, List.length_nil]
  | cons b' front ih =>
      obtain ⟨hb', hfront⟩ := h.of_cons
      rw [List.length_cons] at hlength
      rw [List.cons_append, varintGroups_cons_of_ge hb' (by omega), ih hfront (by omega)]
      rfl

theorem readsVarint_iff {bytes : List UInt8} {r : Except Error Nat × Nat} :
    ReadsVarint bytes r ↔ varintGroups 0 bytes = r := by
  have hreads : ∀ {r}, ReadsVarint bytes r → varintGroups 0 bytes = r := by
    intro r h
    cases h with
    | number rest h hlength hfits =>
        rw [← Nat.shiftLeft_zero (n := groupsValue _)] at hfits
        rw [h.varintGroups_eq rest (by omega) hfits, Nat.shiftLeft_zero]
    | short h hlength => exact h.varintGroups_eq (by omega)
    | overflow rest h hlength hb => rw [h.varintGroups_append hb rest (by omega), hlength]
  refine ⟨hreads, fun h => ?_⟩
  obtain ⟨r', hr'⟩ := exists_readsVarint bytes
  rwa [← h, hreads hr']

theorem readsVarint_ok_iff {bytes : List UInt8} {n count : Nat} :
    ReadsVarint bytes (.ok n, count) ↔ n < wordModulus ∧ ∃ groups, groups <+: bytes ∧
      IsVarint groups ∧ groups.length ≤ 10 ∧ groupsValue groups = n ∧ count = groups.length := by
  constructor
  · intro h
    cases h with
    | number rest h hlength hfits =>
        exact ⟨hfits, _, List.prefix_append _ rest, h, hlength, rfl, rfl⟩
  · rintro ⟨hfits, groups, ⟨rest, rfl⟩, h, hlength, rfl, rfl⟩
    exact .number rest h hlength hfits

theorem readsVarint_error_iff {bytes : List UInt8} {e : Error} {count : Nat} :
    ReadsVarint bytes (.error e, count) ↔
      (e = .outOfBounds ∧ Continued bytes ∧ bytes.length < 10 ∧ count = bytes.length) ∨
      (e = .malformed .varintOverflow ∧ ∃ front b, front ++ [b] <+: bytes ∧ Continued front ∧
        front.length = 9 ∧ 1 < b.toNat ∧ count = 10) := by
  constructor
  · intro h
    cases h with
    | short h hlength => exact .inl ⟨rfl, h, hlength, rfl⟩
    | @overflow front b rest h hlength hb =>
        exact .inr ⟨rfl, front, b, ⟨rest, by simp⟩, h, hlength, hb, rfl⟩
  · rintro (⟨rfl, h, hlength, rfl⟩ | ⟨rfl, front, b, ⟨rest, rfl⟩, h, hlength, hb, rfl⟩)
    · exact .short h hlength
    · rw [List.append_assoc]
      exact .overflow rest h hlength hb

/-- Bytes behind the tenth one are not looked at. -/
theorem varintGroups_take (bytes : List UInt8) :
    varintGroups 0 (bytes.take 10) = varintGroups 0 bytes := by
  obtain ⟨r, hr⟩ := exists_readsVarint bytes
  have htake : ReadsVarint (bytes.take 10) r := by
    cases hr with
    | number rest h hlength hfits =>
        rw [List.take_append, List.take_of_length_le hlength]
        exact .number _ h hlength hfits
    | short h hlength =>
        rw [List.take_of_length_le (Nat.le_of_lt hlength)]
        exact .short h hlength
    | @overflow front b rest h hlength hb =>
        rw [List.take_append, List.take_of_length_le (by omega), hlength]
        exact .overflow [] h hlength hb
  rw [readsVarint_iff.1 htake, readsVarint_iff.1 hr]

/-! ## Shifts in a word -/

theorem toNat_lowBits (b : UInt8) : (b &&& 0x7f).toNat = b.toNat % 128 := by
  rw [UInt8.toNat_and]
  exact Nat.and_two_pow_sub_one_eq_mod b.toNat 7

theorem topBit_eq_zero_iff (b : UInt8) : b &&& 0x80 = 0 ↔ b.toNat < 128 := by
  have hb := b.toNat_lt
  have hbit : (b &&& 0x80).toNat = (b.toNat.testBit 7).toNat * 2 ^ 7 := by
    rw [UInt8.toNat_and]
    exact Nat.and_two_pow b.toNat 7
  rw [← UInt8.toNat_inj, hbit, Nat.testBit_eq_decide_div_mod_eq]
  by_cases h : b.toNat / 2 ^ 7 % 2 = 1
  · rw [decide_eq_true h, Bool.toNat_true, UInt8.toNat_zero]
    omega
  · rw [decide_eq_false h, Bool.toNat_false, UInt8.toNat_zero]
    omega

/-- Bits that are put in above those of a word are added to it. -/
theorem toNat_or_shiftLeft {value group : UInt64} {shift : Nat} (hshift : shift < 64)
    (hvalue : value.toNat < 2 ^ shift) (hfits : group.toNat <<< shift < wordModulus) :
    (value ||| group <<< UInt64.ofNat shift).toNat = value.toNat + group.toNat <<< shift := by
  have hword : wordModulus = 2 ^ 64 := by decide
  have hof : (UInt64.ofNat shift).toNat = shift := by
    rw [UInt64.toNat_ofNat', Nat.mod_eq_of_lt (by omega)]
  rw [UInt64.toNat_or, UInt64.toNat_shiftLeft, hof, Nat.mod_eq_of_lt hshift,
    Nat.mod_eq_of_lt (hword ▸ hfits), Nat.shiftLeft_eq, Nat.mul_comm, Nat.or_comm,
    ← Nat.two_pow_add_eq_or_of_lt hvalue, Nat.add_comm]

namespace Decoder

/-- One byte after the other, its bits put into a word. A shift by the width of the word or more
would abort the run. -/
def uvarintLoop (c : Cursor) (value : UInt64) (shift : Nat) : EStateM.Result Error Cursor Nat :=
  if _h : c.pos < c.data.size then
    let b := c.data[c.pos]
    let behind := { c with pos := c.pos + 1 }
    if shift = 63 ∧ 1 < b then .error (.malformed .varintOverflow) behind
    else
      let value := value ||| (b &&& 0x7f).toUInt64 <<< UInt64.ofNat shift
      if b &&& 0x80 = 0 then .ok value.toNat behind
      else if shift + 7 < 64 then uvarintLoop behind value (shift + 7)
      else .error .aborted behind
  else .error .outOfBounds c
termination_by c.data.size - c.pos

/-- A group that does not overflow fits into the word above the groups in front of it. -/
theorem toNat_or_group {b : UInt8} {value : UInt64} {shift : Nat} (hseven : shift % 7 = 0)
    (hshift : shift < 64) (hvalue : value.toNat < 2 ^ shift) (hover : ¬ (shift = 63 ∧ 1 < b)) :
    (value ||| (b &&& 0x7f).toUInt64 <<< UInt64.ofNat shift).toNat =
      value.toNat + (b.toNat % 128) <<< shift := by
  have hgroup : (b &&& 0x7f).toUInt64.toNat = b.toNat % 128 := by
    rw [UInt8.toNat_toUInt64, toNat_lowBits]
  have hfits : (b.toNat % 128) <<< shift < wordModulus := by
    rw [Nat.shiftLeft_eq]
    rcases Nat.lt_or_ge shift 63 with hlow | hhigh
    · have hpow : 2 ^ shift ≤ 2 ^ 56 := Nat.pow_le_pow_right (by decide) (by omega)
      calc b.toNat % 128 * 2 ^ shift
        _ ≤ 127 * 2 ^ 56 := Nat.mul_le_mul (by omega) hpow
        _ < wordModulus := by decide
    · obtain rfl : shift = 63 := by omega
      have hone : b.toNat ≤ 1 := Nat.le_of_not_lt fun h => hover ⟨rfl, h⟩
      calc b.toNat % 128 * 2 ^ 63
        _ ≤ 1 * 2 ^ 63 := Nat.mul_le_mul_right _ (by omega)
        _ < wordModulus := by decide
  rw [← hgroup] at hfits ⊢
  exact toNat_or_shiftLeft hshift hvalue hfits

/-- How the loop ends, if it comes to a byte with a value and the groups from there on are read like
this. -/
def loopEnd (c : Cursor) (value : Nat) : Except Error Nat × Nat → EStateM.Result Error Cursor Nat
  | (.ok n, count) => .ok (value + n) { c with pos := c.pos + count }
  | (.error e, count) => .error e { c with pos := c.pos + count }

theorem uvarintLoop_eq {c : Cursor} {value : UInt64} {shift : Nat} (hseven : shift % 7 = 0)
    (hshift : shift < 64) (hvalue : value.toNat < 2 ^ shift) :
    uvarintLoop c value shift =
      loopEnd c value.toNat (varintGroups shift (c.data.data.toList.drop c.pos)) := by
  have hdrop : ∀ {c : Cursor} (hpos : c.pos < c.data.size),
      c.data.data.toList.drop c.pos = c.data[c.pos] :: c.data.data.toList.drop (c.pos + 1) :=
    fun hpos => List.drop_eq_getElem_cons (by simpa using hpos)
  have hgoesOn : ∀ {b : UInt8} {shift : Nat}, ¬ b &&& 0x80 = 0 → ¬ (shift = 63 ∧ 1 < b) →
      128 ≤ b.toNat ∧ shift ≠ 63 := by
    intro b shift hlast hover
    have hb : 128 ≤ b.toNat := Nat.not_lt.1 fun h => hlast ((topBit_eq_zero_iff b).2 h)
    have hone : 1 < b := show 1 < b.toNat by omega
    exact ⟨hb, fun h => hover ⟨h, hone⟩⟩
  fun_induction uvarintLoop c value shift with
  | case1 c value shift hpos b behind hover =>
      rw [hdrop hpos, varintGroups, if_pos hover]
      rfl
  | case2 c value shift hpos b behind hover value' hlast =>
      have hb := (topBit_eq_zero_iff b).1 hlast
      have hone : shift = 63 → b.toNat ≤ 1 := fun h => Nat.le_of_not_lt fun hb => hover ⟨h, hb⟩
      rw [hdrop hpos, varintGroups_of_lt _ hb hone, toNat_or_group hseven hshift hvalue hover,
        Nat.mod_eq_of_lt hb]
      rfl
  | case3 c value shift hpos b behind hover value' hlast hnext ih =>
      obtain ⟨hb, hshift'⟩ := hgoesOn hlast hover
      have hgroup : b.toNat % 128 = b.toNat - 128 := by
        have := b.toNat_lt
        omega
      have hvalue' : value'.toNat = value.toNat + (b.toNat - 128) <<< shift :=
        hgroup ▸ toNat_or_group hseven hshift hvalue hover
      have hbound : value'.toNat < 2 ^ (shift + 7) := by
        rw [hvalue', Nat.shiftLeft_eq, Nat.pow_add]
        have hle : (b.toNat - 128) * 2 ^ shift ≤ 127 * 2 ^ shift :=
          Nat.mul_le_mul_right _ (by omega)
        omega
      rw [ih (by omega) hnext hbound, hdrop hpos, varintGroups_cons_of_ge hb hshift', hvalue']
      change loopEnd behind _ (varintGroups (shift + 7) (c.data.data.toList.drop (c.pos + 1))) = _
      have hpos' : ∀ count, c.pos + 1 + count = c.pos + (count + 1) := by omega
      rcases varintGroups (shift + 7) (c.data.data.toList.drop (c.pos + 1)) with ⟨e | n, count⟩
      · simp only [loopEnd, behind, hpos', Except.map]
      · simp only [loopEnd, behind, hpos', Except.map, Nat.add_assoc]
  | case4 c value shift hpos b behind hover hlast hnext =>
      obtain ⟨-, hshift'⟩ := hgoesOn hlast hover
      omega
  | case5 c value shift hpos =>
      have hnil : c.data.data.toList.drop c.pos = [] :=
        List.drop_of_length_le (by simpa using Nat.le_of_not_lt hpos)
      rw [hnil]
      rfl

theorem run_uvarint_eq_loopEnd (c : Cursor) :
    uvarint.run c = loopEnd c 0 (varintGroups 0 (c.data.data.toList.drop c.pos)) := by
  rw [run_uvarint, extract_eq_toByteArray, List.toList_data_toByteArray, varintGroups_take]
  rcases varintGroups 0 (c.data.data.toList.drop c.pos) with ⟨e | n, count⟩
  · rfl
  · simp only [loopEnd, Nat.zero_add]

theorem run_uvarint_eq_ok_iff {c c' : Cursor} {n : Nat} :
    uvarint.run c = .ok n c' ↔
      ∃ count, ReadsVarint (c.data.data.toList.drop c.pos) (.ok n, count) ∧
        c' = { c with pos := c.pos + count } := by
  rw [run_uvarint_eq_loopEnd]
  simp only [readsVarint_iff]
  rcases varintGroups 0 (c.data.data.toList.drop c.pos) with ⟨e | m, count⟩
  · simp [loopEnd]
  · simp [loopEnd, eq_comm]

theorem run_uvarint_eq_error_iff {c c' : Cursor} {e : Error} :
    uvarint.run c = .error e c' ↔
      ∃ count, ReadsVarint (c.data.data.toList.drop c.pos) (.error e, count) ∧
        c' = { c with pos := c.pos + count } := by
  rw [run_uvarint_eq_loopEnd]
  simp only [readsVarint_iff]
  rcases varintGroups 0 (c.data.data.toList.drop c.pos) with ⟨e | m, count⟩
  · simp [loopEnd, eq_comm]
  · simp [loopEnd]

/-- Reading by shifts in a word comes to the same, so no shift is by the width of the word or
more. -/
theorem uvarintLoop_eq_run (c : Cursor) : uvarintLoop c 0 0 = uvarint.run c := by
  rw [run_uvarint_eq_loopEnd]
  exact uvarintLoop_eq (by decide) (by decide) (by decide)

end Decoder

/-! ## Canonical groups -/

/-- Groups that make up a number, of which no fewer do. -/
structure IsCanonical (groups : List UInt8) (n : Nat) : Prop where
  isVarint : IsVarint groups
  value_eq : groupsValue groups = n
  shortest : ∀ other, IsVarint other → groupsValue other = n → groups.length ≤ other.length

theorem isVarint_varintBytes (n : Nat) : IsVarint (varintBytes n) := by
  induction n using Nat.strongRecOn with
  | ind n ih =>
      by_cases hn : n < 128
      · rw [varintBytes_of_lt hn]
        exact .last (by simp; omega)
      · rw [varintBytes_of_ge (Nat.not_lt.1 hn)]
        exact .more (by simp; omega) (ih (n / 128) (by omega))

theorem groupsValue_varintBytes (n : Nat) : groupsValue (varintBytes n) = n := by
  induction n using Nat.strongRecOn with
  | ind n ih =>
      by_cases hn : n < 128
      · rw [varintBytes_of_lt hn, groupsValue, groupsValue]
        simp
        omega
      · rw [varintBytes_of_ge (Nat.not_lt.1 hn), groupsValue, ih (n / 128) (by omega)]
        simp
        omega

theorem isCanonical_varintBytes (n : Nat) : IsCanonical (varintBytes n) n := by
  refine ⟨isVarint_varintBytes n, groupsValue_varintBytes n, ?_⟩
  rintro other hother rfl
  have hvalue := groupsValue_lt other
  obtain ⟨k, hk⟩ := Nat.exists_eq_succ_of_ne_zero (Nat.ne_of_gt hother.length_pos)
  rw [hk] at hvalue ⊢
  exact length_varintBytes_le hvalue

/-- A number of variable length is read from at most ten groups whose value fits into a word, from
canonical ones and others alike, and from nothing else. The data may end in front of the last group,
and a tenth byte may hold more than one bit; in both cases the bytes that have been looked at are
passed. No shift of a group moves it out of the word. -/
theorem run_uvarint_exact (c : Cursor) :
    let bytes := c.data.data.toList.drop c.pos
    let behind (count : Nat) : Cursor := { c with pos := c.pos + count }
    (∀ n c', Decoder.uvarint.run c = .ok n c' ↔ n < wordModulus ∧
      ∃ groups, groups <+: bytes ∧ IsVarint groups ∧ groups.length ≤ 10 ∧
        groupsValue groups = n ∧ c' = behind groups.length) ∧
    (∀ e c', Decoder.uvarint.run c = .error e c' ↔
      (e = .outOfBounds ∧ Continued bytes ∧ bytes.length < 10 ∧ c' = behind bytes.length) ∨
      (e = .malformed .varintOverflow ∧ ∃ front b, front ++ [b] <+: bytes ∧ Continued front ∧
        front.length = 9 ∧ 1 < b.toNat ∧ c' = behind 10)) ∧
    Decoder.uvarintLoop c 0 0 = Decoder.uvarint.run c ∧
    ∀ n < wordModulus, IsCanonical (varintBytes n) n ∧
      (varintBytes n <+: bytes →
        Decoder.uvarint.run c = .ok n (behind (varintBytes n).length)) := by
  intro bytes behind
  refine ⟨fun n c' => ?_, fun e c' => ?_, Decoder.uvarintLoop_eq_run c, fun n hn => ?_⟩
  · rw [Decoder.run_uvarint_eq_ok_iff]
    simp only [readsVarint_ok_iff]
    constructor
    · rintro ⟨_, ⟨hn, groups, hprefix, h, hlength, hvalue, rfl⟩, rfl⟩
      exact ⟨hn, groups, hprefix, h, hlength, hvalue, rfl⟩
    · rintro ⟨hn, groups, hprefix, h, hlength, hvalue, rfl⟩
      exact ⟨_, ⟨hn, groups, hprefix, h, hlength, hvalue, rfl⟩, rfl⟩
  · rw [Decoder.run_uvarint_eq_error_iff]
    simp only [readsVarint_error_iff]
    constructor
    · rintro ⟨_, ⟨he, h, hlength, rfl⟩ | ⟨he, front, b, hprefix, h, hlength, hb, rfl⟩, rfl⟩
      · exact .inl ⟨he, h, hlength, rfl⟩
      · exact .inr ⟨he, front, b, hprefix, h, hlength, hb, rfl⟩
    · rintro (⟨he, h, hlength, rfl⟩ | ⟨he, front, b, hprefix, h, hlength, hb, rfl⟩)
      · exact ⟨_, .inl ⟨he, h, hlength, rfl⟩, rfl⟩
      · exact ⟨_, .inr ⟨he, front, b, hprefix, h, hlength, hb, rfl⟩, rfl⟩
  · refine ⟨isCanonical_varintBytes n, ?_⟩
    rintro ⟨rest, hrest⟩
    exact Decoder.run_uvarint_of_drop hn hrest.symm

/-- The largest number takes ten groups, with a byte behind them that is none of theirs. -/
theorem run_uvarint_largest :
    let c : Cursor := { data := ⟨#[0xff, 0xff, 0xff, 0xff, 0xff, 0xff, 0xff, 0xff, 0xff, 1, 0x61]⟩ }
    0xffffffffffffffff < wordModulus ∧ varintBytes 0xffffffffffffffff <+: c.data.data.toList ∧
      Decoder.uvarint.run c = .ok 0xffffffffffffffff { c with pos := 10 } := by
  intro c
  have hgroups : varintBytes 0xffffffffffffffff =
      [0xff, 0xff, 0xff, 0xff, 0xff, 0xff, 0xff, 0xff, 0xff, 1] := by
    simp [varintBytes]
  have hprefix : varintBytes 0xffffffffffffffff <+: c.data.data.toList := by
    rw [hgroups]
    decide
  have hrun := ((run_uvarint_exact c).2.2.2 0xffffffffffffffff (by decide)).2 hprefix
  rw [hgroups] at hrun
  exact ⟨by decide, hprefix, hrun⟩

end GoImage
