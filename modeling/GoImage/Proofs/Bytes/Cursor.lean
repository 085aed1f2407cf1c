import GoImage.Proofs.Bytes.Groups
import GoImage.Proofs.Bytes.Text

/-! # What is done with a cursor

Each operation that succeeds takes the bytes in front of the cursor, or moves it to another place in
the data. One that fails leaves the cursor where it was, or inside the data behind the bytes that it
has looked at. -/

namespace GoImage

open Decoder

/-! ## Bytes in front of a position -/

theorem exists_standsAt_iff {data : ByteArray} {pos n : Nat} (h : pos ≤ data.size) :
    pos + n ≤ data.size ↔ ∃ bytes, bytes.length = n ∧ StandsAt bytes data pos := by
  constructor
  · intro hfits
    refine ⟨(data.data.toList.drop pos).take n, ?_, standsAt_iff.2 ⟨h, List.take_prefix _ _⟩⟩
    rw [List.length_take, List.length_drop, Array.length_toList, ByteArray.size_data]
    omega
  · rintro ⟨bytes, rfl, hbytes⟩
    exact hbytes.le_size

/-- There is one step to a multiple of a number that is shorter than the number. -/
theorem eq_padding_iff {n pos k : Nat} (hn : n ≠ 0) :
    k = (n - pos % n) % n ↔ k < n ∧ n ∣ pos + k := by
  have hr : pos % n < n := Nat.mod_lt pos (Nat.pos_of_ne_zero hn)
  have hpos := Nat.div_add_mod pos n
  constructor
  · rintro rfl
    refine ⟨Nat.mod_lt _ (Nat.pos_of_ne_zero hn), Nat.dvd_of_mod_eq_zero ?_⟩
    have hsum : pos + (n - pos % n) = n * (pos / n + 1) := by
      rw [Nat.mul_succ]
      omega
    rw [Nat.add_mod_mod, hsum, Nat.mul_mod_right]
  · rintro ⟨hk, hdvd⟩
    have hdvd' : n ∣ pos % n + k := by
      rw [← hpos, Nat.add_assoc] at hdvd
      exact (Nat.dvd_add_right (Nat.dvd_mul_right n _)).1 hdvd
    by_cases hzero : pos % n = 0
    · rw [hzero, Nat.zero_add] at hdvd'
      rw [hzero, Nat.sub_zero, Nat.mod_self]
      exact Nat.eq_zero_of_dvd_of_lt hdvd' hk
    · obtain ⟨m, hm⟩ := hdvd'
      have hone : m = 1 := by
        rcases Nat.lt_trichotomy m 1 with hlow | hone | hhigh
        · obtain rfl : m = 0 := by omega
          omega
        · exact hone
        · have := Nat.mul_le_mul_left n hhigh
          omega
      rw [hone, Nat.mul_one] at hm
      rw [Nat.mod_eq_of_lt (by omega)]
      omega

namespace Cursor

/-! ## Operations -/

/-- What can be asked of a cursor. Integers are read in its own byte order or in a given one. -/
inductive Operation
  | seek (pos : Nat)
  | skip (n : Nat)
  | align (n : Nat)
  | int (type : IntType)
  | intIn (order : ByteOrder) (type : IntType)
  | pointer
  | uvarint
  | text
  | take (n : Nat)
deriving DecidableEq

inductive Answer
  | done
  | number (n : Int)
  | text (text : String)
  | bytes (bytes : ByteArray)

namespace Operation

def decoder : Operation → Decoder Answer
  | seek pos => (fun _ => .done) <$> Decoder.seek pos
  | skip n => (fun _ => .done) <$> Decoder.skip n
  | align n => (fun _ => .done) <$> Decoder.align n
  | int type => .number <$> Decoder.int type
  | intIn order type => .number <$> Decoder.intIn order type
  | pointer => (fun n : Nat => .number n) <$> Decoder.pointer
  | uvarint => (fun n : Nat => .number n) <$> Decoder.uvarint
  | text => .text <$> Decoder.text
  | take n => .bytes <$> Decoder.take n

end Operation

/-- The cursor behind an operation, whether this has answered or failed. -/
def after (c : Cursor) (operation : Operation) : Cursor :=
  match operation.decoder.run c with
  | .ok _ c' => c'
  | .error _ c' => c'

/-- The cursor behind any operations, one after the other. -/
def afterAll (c : Cursor) (operations : List Operation) : Cursor :=
  operations.foldl after c

/-- The bytes that an operation takes from where the cursor stands, and its answer to them. -/
inductive Takes (c : Cursor) : Operation → List UInt8 → Answer → Prop
  | skip (bytes : List UInt8) : Takes c (.skip bytes.length) bytes .done
  | stay : Takes c (.align 0) [] .done
  | align {n : Nat} {bytes : List UInt8} (hlength : bytes.length < n)
      (hmultiple : n ∣ c.pos + bytes.length) : Takes c (.align n) bytes .done
  | int {type : IntType} {bytes : List UInt8} (hlength : bytes.length = type.width) :
      Takes c (.int type) bytes (.number (type.ofWord (c.order.decode bytes)))
  | intIn {order : ByteOrder} {type : IntType} {bytes : List UInt8}
      (hlength : bytes.length = type.width) :
      Takes c (.intIn order type) bytes (.number (type.ofWord (order.decode bytes)))
  | pointer {size : PointerSize} {bytes : List UInt8} (hsize : c.pointerSize = size.bytes)
      (hlength : bytes.length = size.bytes) :
      Takes c .pointer bytes (.number (c.order.decode bytes))
  | uvarint {groups : List UInt8} (h : IsVarint groups) (hlength : groups.length ≤ 10)
      (hfits : groupsValue groups < wordModulus) :
      Takes c .uvarint groups (.number (groupsValue groups))
  | closedText {text : String} (h : 0 ∉ textBytes text) :
      Takes c .text (textBytes text ++ [0]) (.text text)
  | openText {text : String} (h : 0 ∉ textBytes text)
      (hend : c.pos + (textBytes text).length = c.data.size) :
      Takes c .text (textBytes text) (.text text)
  | take (bytes : List UInt8) : Takes c (.take bytes.length) bytes (.bytes bytes.toByteArray)

/-- What an operation does that succeeds: it moves to a place in the data, or takes the bytes in
front of it. -/
inductive Does (c : Cursor) : Operation → Answer → Cursor → Prop
  | seek {pos : Nat} (h : pos ≤ c.data.size) : Does c (.seek pos) .done { c with pos }
  | takes {operation : Operation} {bytes : List UInt8} {answer : Answer}
      (hstands : StandsAt bytes c.data c.pos) (h : Takes c operation bytes answer) :
      Does c operation answer { c with pos := c.pos + bytes.length }

/-! ## Operations that succeed -/

variable {c c' : Cursor} {answer : Answer}

theorem run_of_takes {operation : Operation} {bytes : List UInt8}
    (hstands : StandsAt bytes c.data c.pos) (h : Takes c operation bytes answer) :
    operation.decoder.run c = .ok answer { c with pos := c.pos + bytes.length } := by
  have hfits := hstands.le_size
  have hextract := hstands.extract_eq
  have hlist : (c.data.extract c.pos (c.pos + bytes.length)).data.toList = bytes := by
    rw [hextract, List.toList_data_toByteArray]
  cases h with
  | skip => exact run_map_eq_ok_iff.2 ⟨(), run_skip_eq_ok_iff.2 ⟨hfits, rfl⟩, rfl⟩
  | stay => rfl
  | @align n _ hlength hmultiple =>
      have hn : n ≠ 0 := Nat.ne_of_gt (Nat.zero_lt_of_lt hlength)
      have hskip : (Decoder.align n).run c = .ok () { c with pos := c.pos + bytes.length } := by
        rw [run_align hn, ← (eq_padding_iff hn).2 ⟨hlength, hmultiple⟩]
        exact run_skip_eq_ok_iff.2 ⟨hfits, rfl⟩
      exact run_map_eq_ok_iff.2 ⟨(), hskip, rfl⟩
  | int hlength =>
      rw [hlength] at hfits hlist ⊢
      exact run_map_eq_ok_iff.2 ⟨_, run_int_eq_ok_iff.2 ⟨hfits, rfl, rfl⟩, by rw [hlist]⟩
  | intIn hlength =>
      rw [hlength] at hfits hlist ⊢
      exact run_map_eq_ok_iff.2 ⟨_, run_intIn_eq_ok_iff.2 ⟨hfits, rfl, rfl⟩, by rw [hlist]⟩
  | pointer hsize hlength =>
      rw [hlength] at hfits hlist ⊢
      exact run_map_eq_ok_iff.2
        ⟨_, run_pointer_eq_ok_iff.2 ⟨_, hsize, hfits, rfl, rfl⟩, by rw [hlist]⟩
  | uvarint hgroups hlength hvalue =>
      obtain ⟨rest, hrest⟩ := hstands.drop_eq
      have hreads := ReadsVarint.number rest hgroups hlength hvalue
      rw [← hrest] at hreads
      exact run_map_eq_ok_iff.2 ⟨_, run_uvarint_eq_ok_iff.2 ⟨_, hreads, rfl⟩, rfl⟩
  | @closedText text hzero =>
      obtain ⟨rest, hrest⟩ := hstands.drop_eq
      have hbytes : beforeZero (c.data.data.toList.drop c.pos) = textBytes text := by
        rw [hrest, List.append_assoc]
        exact beforeZero_append_cons hzero rest
      rw [List.length_append, List.length_singleton, ← Nat.add_assoc] at hfits ⊢
      have hrun := run_text_of_eq (by omega) hbytes
      rw [Nat.min_eq_left hfits] at hrun
      exact run_map_eq_ok_iff.2 ⟨_, hrun, rfl⟩
  | @openText text hzero hend =>
      have hbytes : beforeZero (c.data.data.toList.drop c.pos) = textBytes text := by
        obtain ⟨rest, hrest⟩ := hstands.drop_eq
        have hnil : rest = [] := by
          have hlength := congrArg List.length hrest
          rw [List.length_drop, Array.length_toList, ByteArray.size_data,
            List.length_append] at hlength
          exact List.length_eq_zero_iff.1 (by omega)
        rw [hrest, hnil, List.append_nil]
        exact beforeZero_eq_self hzero
      have hrun := run_text_of_eq (by omega) hbytes
      rw [Nat.min_eq_right (by omega), ← hend] at hrun
      exact run_map_eq_ok_iff.2 ⟨_, hrun, rfl⟩
  | take => exact run_map_eq_ok_iff.2 ⟨_, run_take_eq_ok_iff.2 ⟨hfits, rfl, rfl⟩, by rw [hextract]⟩

theorem exists_standsAt_extract {n : Nat} (h : c.pos ≤ c.data.size)
    (hfits : c.pos + n ≤ c.data.size) :
    ∃ bytes, bytes.length = n ∧ StandsAt bytes c.data c.pos ∧
      c.data.extract c.pos (c.pos + n) = bytes.toByteArray := by
  obtain ⟨bytes, rfl, hstands⟩ := (exists_standsAt_iff h).1 hfits
  exact ⟨bytes, rfl, hstands, hstands.extract_eq⟩

/-- Text ends in front of a zero byte, or with the data. -/
theorem takes_text_of_beforeZero {text : String} (h : c.pos ≤ c.data.size)
    (htext : beforeZero (c.data.data.toList.drop c.pos) = textBytes text) :
    ∃ bytes, StandsAt bytes c.data c.pos ∧ Takes c .text bytes (.text text) ∧
      min (c.pos + (textBytes text).length + 1) c.data.size = c.pos + bytes.length := by
  have hlength : (c.data.data.toList.drop c.pos).length = c.data.size - c.pos := by simp
  by_cases hzero : 0 ∈ c.data.data.toList.drop c.pos
  · obtain ⟨before, rest, hdrop, hbefore⟩ := List.eq_append_cons_of_mem hzero
    rw [hdrop, beforeZero_append_cons hbefore] at htext
    subst htext
    rw [hdrop, List.length_append, List.length_cons] at hlength
    refine ⟨_, standsAt_iff.2 ⟨h, rest, ?_⟩, .closedText hbefore, ?_⟩
    · rw [hdrop, List.append_assoc, List.singleton_append]
    · rw [List.length_append, List.length_singleton]
      omega
  · rw [beforeZero_eq_self hzero] at htext
    rw [htext] at hzero hlength
    refine ⟨_, standsAt_iff.2 ⟨h, htext ▸ List.prefix_rfl⟩, .openText hzero (by omega), by omega⟩

theorem run_eq_ok_iff {operation : Operation} (h : c.pos ≤ c.data.size) :
    operation.decoder.run c = .ok answer c' ↔ Does c operation answer c' := by
  constructor
  · intro hrun
    cases operation with
    | seek pos =>
        obtain ⟨_, hseek, rfl⟩ := run_map_eq_ok_iff.1 hrun
        obtain ⟨hpos, rfl⟩ := run_seek_eq_ok_iff.1 hseek
        exact .seek hpos
    | skip n =>
        obtain ⟨_, hskip, rfl⟩ := run_map_eq_ok_iff.1 hrun
        obtain ⟨hfits, rfl⟩ := run_skip_eq_ok_iff.1 hskip
        obtain ⟨bytes, rfl, hstands⟩ := (exists_standsAt_iff h).1 hfits
        exact .takes hstands (.skip bytes)
    | align n =>
        obtain ⟨_, halign, rfl⟩ := run_map_eq_ok_iff.1 hrun
        by_cases hn : n = 0
        · subst hn
          cases halign
          exact .takes (standsAt_iff.2 ⟨h, List.nil_prefix⟩) .stay
        · rw [run_align hn] at halign
          obtain ⟨hfits, rfl⟩ := run_skip_eq_ok_iff.1 halign
          obtain ⟨bytes, hlength, hstands⟩ := (exists_standsAt_iff h).1 hfits
          obtain ⟨hlt, hmultiple⟩ := (eq_padding_iff hn).1 hlength
          rw [← hlength]
          exact .takes hstands (.align hlt hmultiple)
    | int type =>
        obtain ⟨_, hint, rfl⟩ := run_map_eq_ok_iff.1 hrun
        obtain ⟨hfits, rfl, rfl⟩ := run_int_eq_ok_iff.1 hint
        obtain ⟨bytes, hlength, hstands, hextract⟩ := exists_standsAt_extract h hfits
        rw [hextract, List.toList_data_toByteArray, ← hlength]
        exact .takes hstands (.int hlength)
    | intIn order type =>
        obtain ⟨_, hint, rfl⟩ := run_map_eq_ok_iff.1 hrun
        obtain ⟨hfits, rfl, rfl⟩ := run_intIn_eq_ok_iff.1 hint
        obtain ⟨bytes, hlength, hstands, hextract⟩ := exists_standsAt_extract h hfits
        rw [hextract, List.toList_data_toByteArray, ← hlength]
        exact .takes hstands (.intIn hlength)
    | pointer =>
        obtain ⟨_, hpointer, rfl⟩ := run_map_eq_ok_iff.1 hrun
        obtain ⟨size, hsize, hfits, rfl, rfl⟩ := run_pointer_eq_ok_iff.1 hpointer
        obtain ⟨bytes, hlength, hstands, hextract⟩ := exists_standsAt_extract h hfits
        rw [hextract, List.toList_data_toByteArray, ← hlength]
        exact .takes hstands (.pointer hsize hlength)
    | uvarint =>
        obtain ⟨n, huvarint, rfl⟩ := run_map_eq_ok_iff.1 hrun
        obtain ⟨_, hreads, rfl⟩ := run_uvarint_eq_ok_iff.1 huvarint
        obtain ⟨hfits, groups, hprefix, hgroups, hlength, rfl, rfl⟩ := readsVarint_ok_iff.1 hreads
        exact .takes (standsAt_iff.2 ⟨h, hprefix⟩) (.uvarint hgroups hlength hfits)
    | text =>
        obtain ⟨text, htext, rfl⟩ := run_map_eq_ok_iff.1 hrun
        obtain ⟨hbytes, rfl⟩ := (run_text_eq_ok_iff h).1 htext
        obtain ⟨bytes, hstands, htakes, hpos⟩ := takes_text_of_beforeZero h hbytes
        rw [hpos]
        exact .takes hstands htakes
    | take n =>
        obtain ⟨_, htake, rfl⟩ := run_map_eq_ok_iff.1 hrun
        obtain ⟨hfits, rfl, rfl⟩ := run_take_eq_ok_iff.1 htake
        obtain ⟨bytes, rfl, hstands, hextract⟩ := exists_standsAt_extract h hfits
        rw [hextract]
        exact .takes hstands (.take bytes)
  · intro hdoes
    cases hdoes with
    | seek hpos => exact run_map_eq_ok_iff.2 ⟨(), run_seek_eq_ok_iff.2 ⟨hpos, rfl⟩, rfl⟩
    | takes hstands htakes => exact run_of_takes hstands htakes

/-! ## Operations that fail -/

/-- Whether a failure leaves the cursor where it was. -/
def FailsInPlace {α : Type} (decoder : Decoder α) : Prop :=
  ∀ c e c', decoder.run c = .error e c' → c' = c

namespace FailsInPlace

variable {α β : Type}

theorem map {decoder : Decoder α} (h : FailsInPlace decoder) (f : α → β) :
    FailsInPlace (f <$> decoder) :=
  fun c e c' hrun => h c e c' (run_map_eq_error_iff.1 hrun)

theorem seek (pos : Nat) : FailsInPlace (Decoder.seek pos) := by
  intro c e c' h
  rw [run_seek] at h
  split at h <;> cases h
  rfl

theorem skip (n : Nat) : FailsInPlace (Decoder.skip n) := by
  intro c e c' h
  rw [run_skip] at h
  split at h <;> cases h
  rfl

theorem align (n : Nat) : FailsInPlace (Decoder.align n) := by
  intro c e c' h
  by_cases hn : n = 0
  · subst hn
    cases h
  · rw [run_align hn] at h
    exact skip _ c e c' h

theorem take (n : Nat) : FailsInPlace (Decoder.take n) := by
  intro c e c' h
  rw [run_take] at h
  split at h <;> cases h
  rfl

theorem wordIn (order : ByteOrder) (width : Nat) : FailsInPlace (Decoder.wordIn order width) := by
  intro c e c' h
  rw [run_wordIn] at h
  split at h <;> cases h
  rfl

theorem intIn (order : ByteOrder) (type : IntType) : FailsInPlace (Decoder.intIn order type) := by
  unfold Decoder.intIn
  rw [bind_pure_comp]
  exact (wordIn order type.width).map type.ofWord

theorem pointer : FailsInPlace Decoder.pointer := by
  intro c e c' h
  rw [run_pointer] at h
  split at h
  · exact wordIn _ _ c e c' h
  · cases h
    rfl

end FailsInPlace

theorem uvarint_failsInside {e : Error} (h : c.pos ≤ c.data.size)
    (hrun : Decoder.uvarint.run c = .error e c') :
    ∃ pos, c' = { c with pos } ∧ c.pos ≤ pos ∧ pos ≤ c.data.size := by
  have hlength : (c.data.data.toList.drop c.pos).length = c.data.size - c.pos := by simp
  obtain ⟨count, hreads, rfl⟩ := run_uvarint_eq_error_iff.1 hrun
  refine ⟨_, rfl, Nat.le_add_right _ _, ?_⟩
  rcases readsVarint_error_iff.1 hreads with
    ⟨-, -, -, rfl⟩ | ⟨-, front, b, hprefix, -, hfront, -, rfl⟩
  · omega
  · have hten := hprefix.length_le
    rw [List.length_append, List.length_singleton] at hten
    omega

theorem text_failsInside {e : Error} (h : c.pos ≤ c.data.size)
    (hrun : Decoder.text.run c = .error e c') :
    ∃ pos, c' = { c with pos } ∧ c.pos ≤ pos ∧ pos ≤ c.data.size := by
  rw [run_text] at hrun
  dsimp only at hrun
  rw [behind_untilZero h] at hrun
  split at hrun
  · cases hrun
  · cases hrun
    exact ⟨_, rfl, by omega, Nat.min_le_right _ _⟩

theorem run_eq_error {operation : Operation} {e : Error} (h : c.pos ≤ c.data.size)
    (hrun : operation.decoder.run c = .error e c') :
    c' = c ∨ (operation = .uvarint ∨ operation = .text) ∧
      ∃ pos, c' = { c with pos } ∧ c.pos ≤ pos ∧ pos ≤ c.data.size := by
  cases operation with
  | seek pos => exact .inl ((FailsInPlace.seek pos).map _ _ _ _ hrun)
  | skip n => exact .inl ((FailsInPlace.skip n).map _ _ _ _ hrun)
  | align n => exact .inl ((FailsInPlace.align n).map _ _ _ _ hrun)
  | int type => exact .inl (FailsInPlace.intIn c.order type c e c' (run_map_eq_error_iff.1 hrun))
  | intIn order type => exact .inl ((FailsInPlace.intIn order type).map _ _ _ _ hrun)
  | pointer => exact .inl (FailsInPlace.pointer.map _ _ _ _ hrun)
  | uvarint => exact .inr ⟨.inl rfl, uvarint_failsInside h (run_map_eq_error_iff.1 hrun)⟩
  | text => exact .inr ⟨.inr rfl, text_failsInside h (run_map_eq_error_iff.1 hrun)⟩
  | take n => exact .inl ((FailsInPlace.take n).map _ _ _ _ hrun)

theorem failsOnly_decoder (operation : Operation) :
    FailsOnly Error.IsReadFault operation.decoder := by
  cases operation with
  | seek pos => exact (FailsOnly.seek trivial pos).map _
  | skip n => exact (FailsOnly.skip n).map _
  | align n =>
      refine FailsOnly.map ?_ _
      unfold Decoder.align
      split
      · exact .bind .get fun _ => .skip _
      · exact .pure _
  | int type => exact (FailsOnly.int type).map _
  | intIn order type => exact (FailsOnly.intIn order type).map _
  | pointer => exact FailsOnly.pointer_isReadFault.map _
  | uvarint => exact FailsOnly.uvarint.map _
  | text => exact FailsOnly.text.map _
  | take n => exact (FailsOnly.take n).map _

/-! ## Runs -/

/-- A cursor over the given data that is inside of them. -/
structure Inside (data : ByteArray) (c : Cursor) : Prop where
  data_eq : c.data = data
  pos_le : c.pos ≤ data.size

theorem Does.inside {operation : Operation} {data : ByteArray} (h : Does c operation answer c')
    (hc : Inside data c) : Inside data c' := by
  obtain ⟨rfl, -⟩ := hc
  cases h with
  | seek hpos => exact ⟨rfl, hpos⟩
  | takes hstands => exact ⟨rfl, hstands.le_size⟩

theorem Does.pos_le {operation : Operation} (h : Does c operation answer c') :
    (∃ pos, operation = .seek pos) ∨ c.pos ≤ c'.pos := by
  cases h with
  | seek => exact .inl ⟨_, rfl⟩
  | takes => exact .inr (Nat.le_add_right _ _)

/-- One operation stays inside the data. -/
theorem Inside.after {data : ByteArray} (hc : Inside data c) (operation : Operation) :
    Inside data (c.after operation) ∧
      ((∃ pos, operation = .seek pos) ∨ c.pos ≤ (c.after operation).pos) := by
  have h : c.pos ≤ c.data.size := hc.data_eq ▸ hc.pos_le
  unfold Cursor.after
  cases hrun : operation.decoder.run c with
  | ok answer c' =>
      have hdoes := (run_eq_ok_iff h).1 hrun
      exact ⟨hdoes.inside hc, hdoes.pos_le⟩
  | error e c' =>
      rcases run_eq_error h hrun with rfl | ⟨-, pos, rfl, hle, hpos⟩
      · exact ⟨hc, .inr (Nat.le_refl _)⟩
      · exact ⟨⟨hc.data_eq, hc.data_eq ▸ hpos⟩, .inr hle⟩

/-- So does any run of them. -/
theorem Inside.afterAll {data : ByteArray} (hc : Inside data c) (operations : List Operation) :
    Inside data (c.afterAll operations) := by
  induction operations generalizing c with
  | nil => exact hc
  | cons operation operations ih => exact ih (hc.after operation).1

end Cursor

end GoImage
