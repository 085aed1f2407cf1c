import GoImage.Proofs.Bytes.Cursor

/-! # Cursors that stay inside their data

Whatever is asked of a cursor, in whatever order and with whatever arguments: its position stays
inside the data, it goes back only where it is moved on purpose, and what is read is what stands in
front of it. A run in which each range of bytes is checked before it is taken out of the data, and
each sum is one of words, comes to the same. -/

namespace GoImage.Cursor

open Decoder

variable {c : Cursor}

/-! ## Checked operations -/

namespace Checked

/-- The sum of two words, if it is a word. -/
def sum? (a b : Nat) : Option Nat :=
  if a + b < wordModulus then some (a + b) else none

def endOf (c : Cursor) (n : Nat) : Except Error Nat :=
  match sum? c.pos n with
  | none => .error .outOfBounds
  | some stop => if c.data.size < stop then .error .outOfBounds else .ok stop

/-- The bytes from `start` up to `stop`. A range that is not one of the data aborts the run. -/
def slice (start stop : Nat) : Decoder ByteArray := do
  let c ← get
  if start ≤ stop ∧ stop ≤ c.data.size then return c.data.extract start stop
  else throw .aborted

def skip (n : Nat) : Decoder Unit := do
  moveTo (← ofExcept (endOf (← get) n))

def align (n : Nat) : Decoder Unit := do
  if n ≠ 0 then
    skip ((n - (← get).pos % n) % n)

def take (n : Nat) : Decoder ByteArray := do
  let c ← get
  let stop ← ofExcept (endOf c n)
  let bytes ← slice c.pos stop
  moveTo stop
  return bytes

def wordIn (order : ByteOrder) (width : Nat) : Decoder Nat := do
  return order.decode (← take width).data.toList

def intIn (order : ByteOrder) (type : IntType) : Decoder Int := do
  return type.ofWord (← wordIn order type.width)

def int (type : IntType) : Decoder Int := do
  intIn (← get).order type

def pointer : Decoder Nat := do
  let c ← get
  match PointerSize.ofBytes? c.pointerSize with
  | some size => wordIn c.order size.bytes
  | none => throw (.malformed (.pointerSize c.pointerSize))

def uvarint : Decoder Nat :=
  fun c => uvarintLoop c 0 0

def text : Decoder String := do
  let c ← get
  let stop := untilZero c.data c.pos
  let bytes ← slice c.pos stop
  moveTo (if stop < c.data.size then stop + 1 else stop)
  match Utf8.decode bytes with
  | .ok text => return text
  | .error fault => throw (.malformed (.text c.pos stop fault))

end Checked

/-- The operation with each range checked before it is taken out of the data, each sum before it is
used as a position, and each shift. -/
def Operation.checked : Operation → Decoder Answer
  | seek pos => (fun _ => .done) <$> Decoder.seek pos
  | skip n => (fun _ => .done) <$> Checked.skip n
  | align n => (fun _ => .done) <$> Checked.align n
  | int type => .number <$> Checked.int type
  | intIn order type => .number <$> Checked.intIn order type
  | pointer => (fun n : Nat => .number n) <$> Checked.pointer
  | uvarint => (fun n : Nat => .number n) <$> Checked.uvarint
  | text => .text <$> Checked.text
  | take n => .bytes <$> Checked.take n

namespace Checked

theorem endOf_eq {c : Cursor} (hsize : c.data.size < wordModulus) (n : Nat) :
    endOf c n = c.endOf n := by
  unfold endOf sum? Cursor.endOf
  by_cases hfits : c.pos + n ≤ c.data.size
  · rw [if_pos (by omega), if_pos hfits]
    exact if_neg (by omega)
  · rw [if_neg hfits]
    split
    · rfl
    · rename_i stop hstop
      split at hstop
      · cases hstop
        exact if_pos (by omega)
      · cases hstop

theorem run_slice {start stop : Nat} (hstart : start ≤ stop) (hstop : stop ≤ c.data.size) :
    (slice start stop).run c = .ok (c.data.extract start stop) c := by
  unfold slice
  rw [EStateM.run_bind, EStateM.run_get]
  dsimp only
  rw [if_pos ⟨hstart, hstop⟩]
  rfl

theorem run_skip_eq (hsize : c.data.size < wordModulus) (n : Nat) :
    (skip n).run c = (Decoder.skip n).run c := by
  unfold skip Decoder.skip
  simp only [EStateM.run_bind, EStateM.run_get, endOf_eq hsize]

theorem run_align_eq (hsize : c.data.size < wordModulus) (n : Nat) :
    (align n).run c = (Decoder.align n).run c := by
  by_cases hn : n = 0
  · subst hn
    rfl
  · rw [run_align hn, ← run_skip_eq hsize]
    simp [align, hn]

theorem run_take_eq (hsize : c.data.size < wordModulus) (n : Nat) :
    (take n).run c = (Decoder.take n).run c := by
  unfold take
  rw [run_take, EStateM.run_bind, EStateM.run_get]
  dsimp only
  rw [endOf_eq hsize]
  by_cases hfits : c.pos + n ≤ c.data.size
  · have hend : c.endOf n = .ok (c.pos + n) := if_pos hfits
    have hofExcept : (ofExcept (c.endOf n) : Decoder Nat).run c = .ok (c.pos + n) c := by
      rw [hend]
      rfl
    rw [if_pos hfits, EStateM.run_bind, hofExcept]
    dsimp only
    rw [EStateM.run_bind, run_slice (Nat.le_add_right _ _) hfits]
    rfl
  · have hend : c.endOf n = .error .outOfBounds := if_neg hfits
    rw [if_neg hfits, hend]
    rfl

theorem run_wordIn_eq (hsize : c.data.size < wordModulus) (order : ByteOrder) (width : Nat) :
    (wordIn order width).run c = (Decoder.wordIn order width).run c := by
  unfold wordIn
  rw [EStateM.run_bind, run_take_eq hsize, run_take, run_wordIn, ByteOrder.readWord]
  by_cases hfits : c.pos + width ≤ c.data.size
  · rw [if_pos hfits, if_pos hfits]
    rfl
  · rw [if_neg hfits, if_neg hfits]

theorem run_intIn_eq (hsize : c.data.size < wordModulus) (order : ByteOrder) (type : IntType) :
    (intIn order type).run c = (Decoder.intIn order type).run c := by
  unfold intIn Decoder.intIn
  rw [EStateM.run_bind, EStateM.run_bind, run_wordIn_eq hsize]

theorem run_pointer_eq (hsize : c.data.size < wordModulus) :
    pointer.run c = Decoder.pointer.run c := by
  unfold pointer
  rw [run_pointer, EStateM.run_bind, EStateM.run_get]
  dsimp only
  cases PointerSize.ofBytes? c.pointerSize with
  | some size => exact run_wordIn_eq hsize c.order size.bytes
  | none => rfl

theorem run_text_eq (h : c.pos ≤ c.data.size) : text.run c = Decoder.text.run c := by
  have hstart : c.pos ≤ untilZero c.data c.pos := untilZero_eq h ▸ Nat.le_add_right _ _
  have hstop : untilZero c.data c.pos ≤ c.data.size := by
    have hlength := (beforeZero_isPrefix (c.data.data.toList.drop c.pos)).length_le
    have hdrop : (c.data.data.toList.drop c.pos).length = c.data.size - c.pos := by simp
    rw [untilZero_eq h]
    omega
  unfold text
  rw [run_text, EStateM.run_bind, EStateM.run_get]
  dsimp only
  rw [EStateM.run_bind, run_slice hstart hstop]
  dsimp only
  rw [EStateM.run_bind]
  cases Utf8.decode (c.data.extract c.pos (untilZero c.data c.pos)) <;> rfl

end Checked

theorem run_checked {operation : Operation} (h : c.pos ≤ c.data.size)
    (hsize : c.data.size < wordModulus) :
    operation.checked.run c = operation.decoder.run c := by
  have hmap : ∀ {α : Type} {f : α → Answer} {left right : Decoder α}, left.run c = right.run c →
      (f <$> left).run c = (f <$> right).run c := by
    intro α f left right heq
    rw [← bind_pure_comp, ← bind_pure_comp, EStateM.run_bind, EStateM.run_bind, heq]
  cases operation with
  | seek pos => rfl
  | skip n => exact hmap (Checked.run_skip_eq hsize n)
  | align n => exact hmap (Checked.run_align_eq hsize n)
  | int type => exact hmap (Checked.run_intIn_eq hsize c.order type)
  | intIn order type => exact hmap (Checked.run_intIn_eq hsize order type)
  | pointer => exact hmap (Checked.run_pointer_eq hsize)
  | uvarint => exact hmap (uvarintLoop_eq_run c)
  | text => exact hmap (Checked.run_text_eq h)
  | take n => exact hmap (Checked.run_take_eq hsize n)

/-- Whatever has been asked of a cursor over some data, it is inside the data, and the next
operation moves it forward unless it is a jump. -/
theorem inside_afterAll (data : ByteArray) (order : ByteOrder) (pointerSize : Nat)
    (operations : List Operation) :
    let c := afterAll { data, order, pointerSize } operations
    c.data = data ∧ c.pos ≤ data.size ∧ ∀ operation : Operation,
      ((∃ pos, operation = .seek pos) ∨ c.pos ≤ (c.after operation).pos) ∧
      (∀ answer c', operation.decoder.run c = .ok answer c' ↔ Does c operation answer c') ∧
      (∀ e c', operation.decoder.run c = .error e c' →
        (operation = .uvarint ∨ operation = .text ∨ c' = c) ∧ e.IsReadFault) ∧
      (data.size < wordModulus → operation.checked.run c = operation.decoder.run c) := by
  intro c
  have hstart : Inside data { data, order, pointerSize } := ⟨rfl, Nat.zero_le _⟩
  have hc : Inside data c := hstart.afterAll operations
  have h : c.pos ≤ c.data.size := hc.data_eq ▸ hc.pos_le
  refine ⟨hc.data_eq, hc.pos_le, fun operation => ⟨(hc.after operation).2,
    fun answer c' => run_eq_ok_iff h, fun e c' hrun => ⟨?_, failsOnly_decoder operation _ _ _ hrun⟩,
    fun hsize => run_checked h (hc.data_eq ▸ hsize)⟩⟩
  rcases run_eq_error h hrun with hstay | ⟨huvarint | htext, -⟩
  · exact .inr (.inr hstay)
  · exact .inl huvarint
  · exact .inr (.inl htext)

/-- An alignment for which no place is left, after a text and a range of bytes that is too long. -/
theorem inside_afterAll_threeBytes :
    let data : ByteArray := ⟨#[0x61, 0, 0x80]⟩
    let c := afterAll { data, order := .big, pointerSize := 4 }
      [.text, .take 0xffffffffffffffff, .uvarint]
    data.size < wordModulus ∧ c.pos ≤ data.size ∧
      (Operation.align 0xffffffffffffffff).checked.run c =
        (Operation.align 0xffffffffffffffff).decoder.run c := by
  intro data c
  have hsize : data.size < wordModulus := by decide
  obtain ⟨-, hpos, hnext⟩ := inside_afterAll data .big 4 [.text, .take 0xffffffffffffffff, .uvarint]
  exact ⟨hsize, hpos, (hnext _).2.2.2 hsize⟩

end GoImage.Cursor
