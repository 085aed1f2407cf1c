import GoImage.Bytes.Word
import Mathlib.Algebra.Ring.Nat

/-! # Words

A word of so many bytes is a number below the power of 256, and each such number is the word that
its bytes denote. -/

namespace GoImage

theorem forM_checkAddress_eq_ok_iff {α : Type} {l : List α} {va : α → Nat} :
    (l.forM fun a => checkAddress (va a)) = .ok () ↔ ∀ a ∈ l, va a < wordModulus := by
  induction l with
  | nil => exact ⟨fun _ => nofun, fun _ => rfl⟩
  | cons a l ih =>
      change (checkAddress (va a) >>= fun _ => l.forM fun a => checkAddress (va a)) = _ ↔ _
      rw [List.forall_mem_cons, ← ih, ← checkAddress_eq_ok_iff]
      cases checkAddress (va a) with
      | ok u => exact ⟨fun h => ⟨rfl, h⟩, And.right⟩
      | error e => exact ⟨nofun, fun h => nomatch h.1⟩

theorem forM_checkAddress_eq_error_iff {α : Type} {l : List α} {va : α → Nat} {e : Error} :
    (l.forM fun a => checkAddress (va a)) = .error e ↔
      e = .aborted ∧ ∃ a ∈ l, wordModulus ≤ va a := by
  induction l with
  | nil => exact ⟨nofun, fun ⟨_, _, h, _⟩ => absurd h List.not_mem_nil⟩
  | cons a l ih =>
      change (checkAddress (va a) >>= fun _ => l.forM fun a => checkAddress (va a)) = _ ↔ _
      simp only [List.mem_cons, exists_eq_or_imp]
      cases hcheck : checkAddress (va a) with
      | ok u =>
          have hva := checkAddress_eq_ok_iff.1 hcheck
          have hhead : ¬ wordModulus ≤ va a := Nat.not_le.2 hva
          simp only [hhead, false_or]
          exact ih
      | error e' =>
          obtain ⟨rfl, hva⟩ := checkAddress_eq_error_iff.1 hcheck
          exact ⟨fun h => ⟨(Except.error.inj h).symm, .inl hva⟩,
            fun h => congrArg Except.error h.1.symm⟩

theorem PointerSize.bytes_pos (size : PointerSize) : 0 < size.bytes := by
  cases size <;> decide

theorem littleEndian_littleEndianBytes {width n : Nat} (h : n < 256 ^ width) :
    littleEndian (littleEndianBytes width n) = n := by
  induction width generalizing n with
  | zero => simp at h; simp [littleEndianBytes, littleEndian, h]
  | succ width ih =>
      have hdiv : n / 256 < 256 ^ width := by
        rw [Nat.pow_succ] at h
        exact Nat.div_lt_of_lt_mul (by omega)
      simp [littleEndianBytes, littleEndian, ih hdiv]
      omega

theorem littleEndianBytes_littleEndian (bytes : List UInt8) :
    littleEndianBytes bytes.length (littleEndian bytes) = bytes := by
  induction bytes with
  | nil => rfl
  | cons b rest ih =>
      have hb := b.toNat_lt
      have hlow : UInt8.ofNat (b.toNat + 256 * littleEndian rest) = b := by
        apply UInt8.toNat.inj
        rw [UInt8.toNat_ofNat']
        omega
      have hrest : (b.toNat + 256 * littleEndian rest) / 256 = littleEndian rest := by omega
      simp [littleEndian, littleEndianBytes, hlow, hrest, ih]

theorem littleEndian_lt (bytes : List UInt8) : littleEndian bytes < 256 ^ bytes.length := by
  induction bytes with
  | nil => simp [littleEndian]
  | cons b rest ih =>
      have hb := b.toNat_lt
      rw [littleEndian, List.length_cons, Nat.pow_succ]
      omega

namespace ByteOrder

theorem decode_encode (order : ByteOrder) {width n : Nat} (h : n < 256 ^ width) :
    order.decode (order.encode width n) = n := by
  cases order <;> simp [decode, encode, littleEndian_littleEndianBytes h]

theorem encode_decode (order : ByteOrder) (bytes : List UInt8) :
    order.encode bytes.length (order.decode bytes) = bytes := by
  cases order with
  | little => exact littleEndianBytes_littleEndian bytes
  | big =>
      have hreverse := littleEndianBytes_littleEndian bytes.reverse
      rw [List.length_reverse] at hreverse
      rw [encode, decode, hreverse, List.reverse_reverse]

theorem decode_lt (order : ByteOrder) (bytes : List UInt8) :
    order.decode bytes < 256 ^ bytes.length := by
  cases order
  · exact littleEndian_lt bytes
  · simpa [decode] using littleEndian_lt bytes.reverse

theorem readWord_lt {order : ByteOrder} {width : Nat} {data : ByteArray} {offset n : Nat}
    (h : order.readWord width data offset = .ok n) : n < 256 ^ width := by
  unfold readWord at h
  split at h
  · rename_i hfits
    cases h
    have hlen := order.decode_lt (data.extract offset (offset + width)).data.toList
    have hsize : (data.extract offset (offset + width)).data.toList.length = width := by
      simp
      omega
    rwa [hsize] at hlen
  · cases h

end ByteOrder

end GoImage
