import GoImage.Proofs.Bytes.Varint
import GoImage.Proofs.Bytes.Word

/-! # Reading what is written

A decoder reads a value from its bytes: wherever these stand, it answers with the value and stops
behind them. Sequences and repetitions of decoders read the bytes of their parts one after the
other. -/

namespace GoImage

theorem toByteArray_toList (data : ByteArray) : data.data.toList.toByteArray = data := by
  ext1
  simp

/-! ## Bytes at a position -/

/-- Whether bytes stand at a position of the data. -/
def StandsAt (bytes : List UInt8) (data : ByteArray) (pos : Nat) : Prop :=
  ∃ front rest, data.data.toList = front ++ (bytes ++ rest) ∧ front.length = pos

variable {bytes left right : List UInt8} {data : ByteArray} {pos : Nat}

theorem standsAt_iff : StandsAt bytes data pos ↔
    pos ≤ data.size ∧ bytes <+: data.data.toList.drop pos := by
  have hlength : data.data.toList.length = data.size := by simp
  constructor
  · rintro ⟨front, rest, hdata, rfl⟩
    rw [hdata, List.length_append] at hlength
    exact ⟨by omega, rest, by rw [hdata, List.drop_left]⟩
  · rintro ⟨hpos, rest, hrest⟩
    refine ⟨data.data.toList.take pos, rest, ?_, ?_⟩
    · rw [hrest, List.take_append_drop]
    · rw [List.length_take]
      omega

instance : Decidable (StandsAt bytes data pos) :=
  decidable_of_iff _ standsAt_iff.symm

theorem standsAt_append : StandsAt (left ++ right) data pos ↔
    StandsAt left data pos ∧ StandsAt right data (pos + left.length) := by
  constructor
  · rintro ⟨front, rest, hdata, rfl⟩
    exact ⟨⟨front, right ++ rest, by simp [hdata], rfl⟩, front ++ left, rest, by simp [hdata],
      by simp⟩
  · rintro ⟨⟨front, rest, hdata, rfl⟩, front', rest', hdata', hlength⟩
    -- Both ways of cutting the data agree in front of the right part.
    have hfront : front' = front ++ left := by
      have htake := congrArg (List.take (front.length + left.length)) hdata'
      rw [hdata, ← List.append_assoc, List.take_left' (by simp), List.take_left' hlength] at htake
      exact htake.symm
    exact ⟨front, rest', by rw [hdata', hfront]; simp, rfl⟩

/-- Bytes that are all of the data stand at its start. -/
theorem standsAt_toArray (bytes : List UInt8) : StandsAt bytes ⟨bytes.toArray⟩ 0 :=
  ⟨[], [], by simp, rfl⟩

theorem standsAt_toByteArray (bytes : List UInt8) : StandsAt bytes bytes.toByteArray 0 :=
  ⟨[], [], by simp, rfl⟩

namespace StandsAt

theorem le_size (h : StandsAt bytes data pos) : pos + bytes.length ≤ data.size := by
  obtain ⟨front, rest, hdata, rfl⟩ := h
  have hlength := congrArg List.length hdata
  simp only [Array.length_toList, ByteArray.size_data, List.length_append] at hlength
  omega

theorem drop_eq (h : StandsAt bytes data pos) :
    ∃ rest, data.data.toList.drop pos = bytes ++ rest := by
  obtain ⟨front, rest, hdata, rfl⟩ := h
  exact ⟨rest, by rw [hdata, List.drop_left]⟩

theorem extract_eq (h : StandsAt bytes data pos) :
    data.extract pos (pos + bytes.length) = bytes.toByteArray := by
  obtain ⟨rest, hrest⟩ := h.drop_eq
  rw [extract_eq_toByteArray, hrest, List.take_left]

theorem getElem_eq {b : UInt8} (h : StandsAt (b :: bytes) data pos) :
    ∃ hpos : pos < data.size, data[pos] = b := by
  have hle := h.le_size
  rw [List.length_cons] at hle
  have hpos : pos < data.data.toList.length := by
    rw [Array.length_toList, ByteArray.size_data]
    omega
  obtain ⟨rest, hrest⟩ := h.drop_eq
  have hhead := congrArg List.head? hrest
  rw [List.head?_drop, List.getElem?_eq_getElem hpos] at hhead
  exact ⟨by omega, Option.some.inj hhead⟩

theorem getElem?_eq {b : UInt8} (h : StandsAt (b :: bytes) data pos) : data[pos]? = some b := by
  obtain ⟨hpos, hb⟩ := h.getElem_eq
  rw [getElem?_pos data pos hpos, hb]

theorem tail {b : UInt8} (h : StandsAt (b :: bytes) data pos) : StandsAt bytes data (pos + 1) :=
  (standsAt_append.1 (show StandsAt ([b] ++ bytes) data pos from h)).2

/-- What stands behind a position stands as far into the data from there on. -/
theorem extract_size (h : StandsAt bytes data pos) {start : Nat} (hstart : start ≤ pos) :
    StandsAt bytes (data.extract start data.size) (pos - start) := by
  have hle := h.le_size
  obtain ⟨rest, hrest⟩ := h.drop_eq
  rw [standsAt_iff, ByteArray.size_extract]
  refine ⟨by omega, rest, ?_⟩
  have hlist : (data.extract start data.size).data.toList = data.data.toList.drop start := by
    simp [List.take_of_length_le]
  rw [hlist, List.drop_drop, Nat.add_sub_cancel' hstart, hrest]

end StandsAt

/-- The bytes of a word stand where it is read. -/
theorem standsAt_of_readWord {order : ByteOrder} {width n : Nat}
    (h : order.readWord width data pos = .ok n) : StandsAt (order.encode width n) data pos := by
  unfold ByteOrder.readWord at h
  split at h
  · rename_i hfits
    cases h
    have hlist : (data.extract pos (pos + width)).data.toList =
        (data.data.toList.drop pos).take width := by
      rw [extract_eq_toByteArray, List.toList_data_toByteArray]
    have hlength : (data.extract pos (pos + width)).data.toList.length = width := by
      simp
      omega
    have hencode := order.encode_decode (data.extract pos (pos + width)).data.toList
    rw [hlength] at hencode
    rw [hencode, standsAt_iff, hlist]
    exact ⟨by omega, List.take_prefix _ _⟩
  · cases h

theorem hasBytes_iff (hne : bytes ≠ []) :
    hasBytes data pos bytes = true ↔ StandsAt bytes data pos := by
  have hpos : data.data.toList.length = data.size := by simp
  rw [hasBytes, beq_iff_eq, extract_eq_toByteArray, List.toList_data_toByteArray, standsAt_iff,
    List.prefix_iff_eq_take]
  refine ⟨fun h => ⟨?_, h.symm⟩, fun h => h.2.symm⟩
  refine Nat.le_of_not_lt fun hlt => hne ?_
  rw [← h, List.drop_of_length_le (by omega), List.take_nil]

/-- Items of one size, one behind the other. -/
theorem length_flatMap_of_forall {ι : Type} {bytes : ι → List UInt8} {size : Nat}
    (h : ∀ i, (bytes i).length = size) (items : List ι) :
    (items.flatMap bytes).length = items.length * size := by
  induction items with
  | nil => simp
  | cons i items ih => rw [List.flatMap_cons, List.length_append, h, ih, List.length_cons,
      Nat.succ_mul, Nat.add_comm]

/-! ## Signed numbers -/

/-- The word that stands for a signed number of four bytes. -/
def signedWord (n : Int) : Nat :=
  (n % 0x100000000).toNat

theorem signedWord_lt (n : Int) : signedWord n < 256 ^ 4 := by
  unfold signedWord
  omega

theorem signedWord_natCast {n : Nat} (h : n < 0x80000000) : signedWord n = n := by
  unfold signedWord
  omega

theorem ofWord_signedWord {n : Int} (hlow : -0x80000000 ≤ n) (hhigh : n < 0x80000000) :
    IntType.i32.ofWord (signedWord n) = n := by
  have hsigned : IntType.i32.signed = true := rfl
  have hmod : (1 <<< (8 * IntType.i32.width) : Nat) = 0x100000000 := by decide
  rw [IntType.ofWord, if_pos hsigned, hmod, signedWord, Int.bmod_def]
  split <;> omega

/-! ## Decoders -/

namespace Decoder

variable {α β : Type} {order : ByteOrder} {size : Nat}

/-- Wherever the bytes stand, the decoder answers with the value and stops behind them. -/
def Reads (order : ByteOrder) (size : Nat) (decoder : Decoder α) (bytes : List UInt8) (a : α) :
    Prop :=
  ∀ c : Cursor, c.order = order → c.pointerSize = size → StandsAt bytes c.data c.pos →
    decoder.run c = .ok a { c with pos := c.pos + bytes.length }

/-- The same of the one place where the decoder starts. -/
def ReadsAt (order : ByteOrder) (size start : Nat) (decoder : Decoder α) (bytes : List UInt8)
    (a : α) : Prop :=
  ∀ c : Cursor, c.order = order → c.pointerSize = size → c.pos = start →
    StandsAt bytes c.data start →
    decoder.run c = .ok a { c with pos := start + bytes.length }

theorem Reads.readsAt {decoder : Decoder α} {a : α} (h : Reads order size decoder bytes a)
    (start : Nat) : ReadsAt order size start decoder bytes a := by
  rintro c horder hsize rfl hstands
  exact h c horder hsize hstands

namespace ReadsAt

variable {start : Nat}

theorem bind {decoder : Decoder α} {f : α → Decoder β} {a : α} {b : β}
    (h : ReadsAt order size start decoder left a)
    (hf : ReadsAt order size (start + left.length) (f a) right b) :
    ReadsAt order size start (decoder >>= f) (left ++ right) b := by
  intro c horder hsize hpos hstands
  obtain ⟨hleft, hright⟩ := standsAt_append.1 hstands
  rw [EStateM.run_bind, h c horder hsize hpos hleft, List.length_append, ← Nat.add_assoc]
  exact hf { c with pos := start + left.length } horder hsize rfl hright

theorem nil_bind {decoder : Decoder α} {f : α → Decoder β} {a : α} {b : β}
    (h : ReadsAt order size start decoder [] a) (hf : ReadsAt order size start (f a) bytes b) :
    ReadsAt order size start (decoder >>= f) bytes b :=
  h.bind hf

theorem bind_nil {decoder : Decoder α} {f : α → Decoder β} {a : α} {b : β}
    (h : ReadsAt order size start decoder bytes a) (hf : Reads order size (f a) [] b) :
    ReadsAt order size start (decoder >>= f) bytes b := by
  have hbind := h.bind (hf.readsAt _)
  rwa [List.append_nil] at hbind

theorem of_eq {decoder : Decoder α} {a : α} {place : Nat} (hplace : place = start)
    (h : ReadsAt order size place decoder bytes a) : ReadsAt order size start decoder bytes a :=
  hplace ▸ h

/-- A jump forward passes over bytes without a look at them. -/
theorem seek {target : Nat} (h : start + bytes.length = target) :
    ReadsAt order size start (seek target) bytes () := by
  rintro c - - rfl hstands
  have hle := hstands.le_size
  rw [run_seek, if_neg (by omega), h]

theorem on {decoder : Decoder α} {a : α} (h : ReadsAt order size start decoder bytes a)
    {c : Cursor} (horder : c.order = order) (hsize : c.pointerSize = size) (hpos : c.pos = start)
    (hstands : StandsAt bytes c.data start) : decoder.on c = .ok a := by
  unfold Decoder.on
  rw [h c horder hsize hpos hstands]

end ReadsAt

namespace Reads

theorem pure (a : α) : Reads order size (Pure.pure a) [] a :=
  fun _ _ _ _ => rfl

theorem pure_of_eq {a b : α} (h : a = b) : Reads order size (Pure.pure a) [] b :=
  h ▸ .pure a

theorem ofExcept {x : Except Error α} {a : α} (h : x = .ok a) :
    Reads order size (ofExcept x) [] a := by
  subst h
  exact .pure a

theorem bind {decoder : Decoder α} {f : α → Decoder β} {a : α} {b : β}
    (h : Reads order size decoder left a) (hf : Reads order size (f a) right b) :
    Reads order size (decoder >>= f) (left ++ right) b :=
  fun c horder hsize => ((h.readsAt c.pos).bind (hf.readsAt _)) c horder hsize rfl

/-- The last step of a sequence may look at nothing any more. -/
theorem bind_nil {decoder : Decoder α} {f : α → Decoder β} {a : α} {b : β}
    (h : Reads order size decoder bytes a) (hf : Reads order size (f a) [] b) :
    Reads order size (decoder >>= f) bytes b :=
  fun c horder hsize => ((h.readsAt c.pos).bind_nil hf) c horder hsize rfl

theorem map {decoder : Decoder α} {a : α} (f : α → β) (h : Reads order size decoder bytes a) :
    Reads order size (f <$> decoder) bytes (f a) := by
  rw [← bind_pure_comp]
  exact h.bind_nil (.pure (f a))

/-- A step that looks at nothing leaves all bytes to the next one. -/
theorem nil_bind {decoder : Decoder α} {f : α → Decoder β} {a : α} {b : β}
    (h : Reads order size decoder [] a) (hf : Reads order size (f a) bytes b) :
    Reads order size (decoder >>= f) bytes b :=
  h.bind hf

/-- A step may read the position and the data, as long as this changes nothing. -/
theorem get_bind {f : Cursor → Decoder α} {a : α} (h : ∀ c, Reads order size (f c) bytes a) :
    Reads order size (get >>= f) bytes a :=
  fun c => h c c

/-- What each of several items is read from, all of them are read from. -/
theorem times {ι : Type} {decoder : Decoder α} {items : List ι} {bytes : ι → List UInt8}
    {value : ι → α} (h : ∀ i ∈ items, Reads order size decoder (bytes i) (value i)) :
    Reads order size (times decoder items.length) (items.flatMap bytes) (items.map value) := by
  induction items with
  | nil => exact .pure []
  | cons i items ih =>
      have hfirst := h i List.mem_cons_self
      have hrest := ih fun j hj => h j (List.mem_cons_of_mem i hj)
      exact hfirst.bind (hrest.bind_nil (.pure _))

theorem skip (bytes : List UInt8) : Reads order size (skip bytes.length) bytes () := by
  intro c _ _ hstands
  rw [run_skip, if_pos hstands.le_size]

theorem skip_of_length {n : Nat} (h : bytes.length = n) :
    Reads order size (Decoder.skip n) bytes () :=
  h ▸ skip bytes

theorem skipPointers {n : Nat} (h : bytes.length = n * size) :
    Reads order size (skipPointers n) bytes () := by
  intro c horder hsize hstands
  subst hsize
  exact skip_of_length h c horder rfl hstands

theorem take (bytes : List UInt8) :
    Reads order size (take bytes.length) bytes bytes.toByteArray := by
  intro c _ _ hstands
  rw [run_take, if_pos hstands.le_size, hstands.extract_eq]

theorem wordIn (order' : ByteOrder) {width n : Nat} (h : n < 256 ^ width) :
    Reads order size (wordIn order' width) (order'.encode width n) n := by
  intro c _ _ hstands
  have hsize := hstands.le_size
  have hbytes := hstands.extract_eq
  rw [ByteOrder.length_encode] at hsize hbytes
  rw [run_wordIn, ByteOrder.readWord, if_pos hsize, hbytes, List.toList_data_toByteArray,
    ByteOrder.decode_encode order' h, ByteOrder.length_encode]

theorem word {width n : Nat} (h : n < 256 ^ width) :
    Reads order size (word width) (order.encode width n) n := by
  rintro c rfl hsize hstands
  exact wordIn c.order h c rfl hsize hstands

theorem byte {n : Nat} (h : n < 256) : Reads order size (Decoder.word 1) [UInt8.ofNat n] n := by
  have hbyte : order.encode 1 n = [UInt8.ofNat n] := by
    cases order <;> rfl
  rw [← hbyte]
  exact word h

theorem pointer {size : PointerSize} {n : Nat} (h : n < 256 ^ size.bytes) :
    Reads order size.bytes pointer (order.encode size.bytes n) n := by
  rintro c rfl hsize hstands
  have hpointer : pointer.run c = (Decoder.wordIn c.order size.bytes).run c := by
    rw [run_pointer, hsize, PointerSize.ofBytes?_bytes]
  rw [hpointer]
  exact wordIn c.order h c rfl hsize hstands

theorem int32 {n : Int} (hlow : -0x80000000 ≤ n) (hhigh : n < 0x80000000) :
    Reads order size (int .i32) (order.encode 4 (signedWord n)) n := by
  rintro c rfl hsize hstands
  have hint : Reads c.order size (intIn c.order .i32) (c.order.encode 4 (signedWord n))
      (IntType.i32.ofWord (signedWord n)) :=
    (wordIn c.order (signedWord_lt n)).bind_nil (.pure _)
  rw [ofWord_signedWord hlow hhigh] at hint
  exact hint c rfl hsize hstands

theorem uvarint {n : Nat} (h : n < wordModulus) :
    Reads order size uvarint (varintBytes n) n := by
  intro c _ _ hstands
  obtain ⟨rest, hrest⟩ := hstands.drop_eq
  exact run_uvarint_of_drop h hrest

theorem on {decoder : Decoder α} {a : α} (h : Reads order size decoder bytes a) {c : Cursor}
    (horder : c.order = order) (hsize : c.pointerSize = size)
    (hstands : StandsAt bytes c.data c.pos) : decoder.on c = .ok a :=
  (h.readsAt c.pos).on horder hsize rfl hstands

/-- A jump to the bytes leaves the rest to the decoder. -/
theorem seek_on {decoder : Decoder α} {a : α} (h : Reads order size decoder bytes a) {c : Cursor}
    (horder : c.order = order) (hsize : c.pointerSize = size)
    (hstands : StandsAt bytes c.data pos) : (do seek pos; decoder : Decoder α).on c = .ok a := by
  have hpos := hstands.le_size
  unfold Decoder.on
  rw [EStateM.run_bind, run_seek, if_neg (by omega)]
  dsimp only
  rw [h { c with pos } horder hsize hstands]

end Reads

end Decoder

end GoImage
