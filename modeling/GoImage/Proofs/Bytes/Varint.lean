import GoImage.Bytes.Decoder
import Mathlib.Algebra.Ring.Nat

/-! # Numbers of variable length

The groups that a number is written in are read back as that number, whatever stands behind them. -/

namespace GoImage

/-- A number in base-128 groups, least significant first. -/
def varintBytes (n : Nat) : List UInt8 :=
  if n < 128 then [UInt8.ofNat n] else UInt8.ofNat (n % 128 + 128) :: varintBytes (n / 128)
termination_by n
decreasing_by omega

theorem varintBytes_of_lt {n : Nat} (h : n < 128) : varintBytes n = [UInt8.ofNat n] := by
  rw [varintBytes, if_pos h]

theorem varintBytes_of_ge {n : Nat} (h : 128 ≤ n) :
    varintBytes n = UInt8.ofNat (n % 128 + 128) :: varintBytes (n / 128) := by
  rw [varintBytes, if_neg (by omega)]

theorem length_varintBytes_pos (n : Nat) : 0 < (varintBytes n).length := by
  by_cases h : n < 128
  · simp [varintBytes_of_lt h]
  · simp [varintBytes_of_ge (Nat.not_lt.1 h)]

theorem length_varintBytes_le {n k : Nat} (h : n < 128 ^ (k + 1)) :
    (varintBytes n).length ≤ k + 1 := by
  induction k generalizing n with
  | zero => simp [varintBytes_of_lt (show n < 128 by omega)]
  | succ k ih =>
      by_cases hn : n < 128
      · simp [varintBytes_of_lt hn]
      · have hdiv : n / 128 < 128 ^ (k + 1) := by
          rw [Nat.pow_succ] at h
          exact Nat.div_lt_of_lt_mul (by omega)
        simp [varintBytes_of_ge (Nat.not_lt.1 hn), ih hdiv]

/-- The first group of a number is zero only if the number is. -/
theorem varintBytes_eq_cons {n : Nat} (h : 0 < n) :
    ∃ b rest, varintBytes n = b :: rest ∧ b ≠ 0 := by
  have hne : ∀ m, 0 < m → m < 256 → UInt8.ofNat m ≠ 0 := by
    intro m hpos hlt hzero
    have htoNat := congrArg UInt8.toNat hzero
    rw [UInt8.toNat_ofNat', Nat.mod_eq_of_lt hlt] at htoNat
    exact Nat.ne_of_gt hpos htoNat
  by_cases hn : n < 128
  · exact ⟨_, _, varintBytes_of_lt hn, hne n h (by omega)⟩
  · exact ⟨_, _, varintBytes_of_ge (Nat.not_lt.1 hn), hne _ (by omega) (by omega)⟩

/-! ## Reading groups -/

theorem varintGroups_of_lt {b : UInt8} {shift : Nat} (rest : List UInt8) (hb : b.toNat < 128)
    (hlast : shift = 63 → b.toNat ≤ 1) :
    varintGroups shift (b :: rest) = (.ok (b.toNat <<< shift), 1) := by
  have hfits : ¬ (shift = 63 ∧ 1 < b) := by
    rintro ⟨hshift, hone⟩
    have hone : 1 < b.toNat := hone
    have := hlast hshift
    omega
  have hsmall : b < 0x80 := hb
  simp only [varintGroups, if_neg hfits, if_pos hsmall]

theorem varintGroups_cons_of_ge {b : UInt8} {shift : Nat} (hb : 128 ≤ b.toNat)
    (hshift : shift ≠ 63) (rest : List UInt8) :
    varintGroups shift (b :: rest) =
      ((varintGroups (shift + 7) rest).1.map ((b.toNat - 128) <<< shift + ·),
        (varintGroups (shift + 7) rest).2 + 1) := by
  have hlarge : ¬ b < 0x80 := Nat.not_lt.2 hb
  simp only [varintGroups, hshift, false_and, ↓reduceIte, if_neg hlarge]

theorem varintGroups_of_ge {b : UInt8} {shift value count : Nat} {rest : List UInt8}
    (hb : 128 ≤ b.toNat) (hshift : shift ≠ 63)
    (hrest : varintGroups (shift + 7) rest = (.ok value, count)) :
    varintGroups shift (b :: rest) = (.ok ((b.toNat - 128) <<< shift + value), count + 1) := by
  rw [varintGroups_cons_of_ge hb hshift, hrest]
  rfl

/-- A group and the number behind it make up the number. -/
theorem shiftLeft_groups (n shift : Nat) :
    (n % 128) <<< shift + (n / 128) <<< (shift + 7) = n <<< shift := by
  have hpow : n / 128 * (2 ^ shift * 2 ^ 7) = 128 * (n / 128) * 2 ^ shift := by
    rw [Nat.mul_comm (2 ^ shift), ← Nat.mul_assoc, Nat.mul_comm (n / 128)]
    rfl
  simp only [Nat.shiftLeft_eq, Nat.pow_add]
  rw [hpow, ← Nat.add_mul, Nat.mod_add_div]

/-- The groups of a number are read to their end, if it fits into a word. -/
theorem varintGroups_varintBytes {n shift : Nat} (rest : List UInt8)
    (h : n <<< shift < wordModulus) :
    varintGroups shift (varintBytes n ++ rest) = (.ok (n <<< shift), (varintBytes n).length) := by
  induction n using Nat.strongRecOn generalizing shift with
  | ind n ih =>
      by_cases hn : n < 128
      · have hbyte : (UInt8.ofNat n).toNat = n := by simp; omega
        rw [varintBytes_of_lt hn, List.singleton_append, varintGroups_of_lt, hbyte]
        · rfl
        · omega
        · rintro rfl
          simp only [Nat.shiftLeft_eq, wordModulus] at h
          omega
      · have hge : 128 ≤ n := Nat.not_lt.1 hn
        have hgroups := shiftLeft_groups n shift
        have hbyte : (UInt8.ofNat (n % 128 + 128)).toNat = n % 128 + 128 := by simp; omega
        have hshift : shift ≠ 63 := by
          rintro rfl
          simp only [Nat.shiftLeft_eq, wordModulus] at h
          omega
        have hle : (n / 128) <<< (shift + 7) ≤ n <<< shift :=
          hgroups ▸ Nat.le_add_left _ _
        have hrest := ih (n / 128) (by omega) (Nat.lt_of_le_of_lt hle h)
        have hlarge : 128 ≤ (UInt8.ofNat (n % 128 + 128)).toNat := by omega
        rw [varintBytes_of_ge hge, List.cons_append, varintGroups_of_ge hlarge hshift hrest, hbyte,
          Nat.add_sub_cancel, hgroups, List.length_cons]

theorem extract_eq_toByteArray (data : ByteArray) (pos width : Nat) :
    data.extract pos (pos + width) = ((data.data.toList.drop pos).take width).toByteArray := by
  ext1
  simp [← Array.toList_inj]

/-- Where the groups of a word stand, that word is read. -/
theorem Decoder.run_uvarint_of_drop {c : Cursor} {n : Nat} {tail : List UInt8}
    (hn : n < wordModulus) (h : c.data.data.toList.drop c.pos = varintBytes n ++ tail) :
    uvarint.run c = .ok n { c with pos := c.pos + (varintBytes n).length } := by
  have hlength : (varintBytes n).length ≤ 10 := by
    apply length_varintBytes_le
    have : wordModulus ≤ 128 ^ 10 := by decide
    omega
  rw [run_uvarint, extract_eq_toByteArray, List.toList_data_toByteArray, h, List.take_append,
    List.take_of_length_le hlength, varintGroups_varintBytes _ hn]
  rfl

end GoImage
