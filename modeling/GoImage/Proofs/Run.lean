import GoImage.Bytes.Decoder

/-! # Answers and errors of runs

When each step of a run answers, and with what. A property of every value that a run can answer
with, or of every error that it can end with, wherever it starts. -/

namespace GoImage

theorem Decoder.on_eq_ok_iff {α : Type} {decoder : Decoder α} {c : Cursor} {a : α} :
    decoder.on c = .ok a ↔ ∃ c', decoder.run c = .ok a c' := by
  unfold Decoder.on
  cases decoder.run c <;> simp

theorem Decoder.on_eq_error_iff {α : Type} {decoder : Decoder α} {c : Cursor} {e : Error} :
    decoder.on c = .error e ↔ ∃ c', decoder.run c = .error e c' := by
  unfold Decoder.on
  cases decoder.run c <;> simp

/-! ## Steps

When a step answers, with what, and where it leaves the position. -/

namespace Decoder

section Steps

variable {α β : Type} {c c' : Cursor}

theorem run_bind_eq_ok_iff {decoder : Decoder α} {f : α → Decoder β} {b : β} :
    (decoder >>= f).run c = .ok b c' ↔
      ∃ a c₁, decoder.run c = .ok a c₁ ∧ (f a).run c₁ = .ok b c' := by
  rw [EStateM.run_bind]
  constructor
  · intro h
    split at h
    · exact ⟨_, _, ‹_›, h⟩
    · cases h
  · rintro ⟨a, c₁, ha, hb⟩
    rw [ha]
    exact hb

/-- What a sequence answers, its last step answers behind the first one. -/
theorem exists_of_on_bind {decoder : Decoder α} {f : α → Decoder β} {b : β}
    (h : (decoder >>= f).on c = .ok b) :
    ∃ a c', decoder.run c = .ok a c' ∧ (f a).on c' = .ok b := by
  obtain ⟨c', hrun⟩ := on_eq_ok_iff.1 h
  obtain ⟨a, c₁, ha, hb⟩ := run_bind_eq_ok_iff.1 hrun
  exact ⟨a, c₁, ha, on_eq_ok_iff.2 ⟨c', hb⟩⟩

theorem run_pure_eq_ok_iff {a b : α} : (pure a : Decoder α).run c = .ok b c' ↔ b = a ∧ c' = c := by
  rw [EStateM.run_pure, EStateM.Result.ok.injEq, eq_comm, eq_comm (a := c)]

theorem run_ofExcept_eq_ok_iff {x : Except Error α} {a : α} :
    (ofExcept x : Decoder α).run c = .ok a c' ↔ x = .ok a ∧ c' = c := by
  cases x with
  | error e =>
      constructor
      · intro h
        cases h
      · rintro ⟨h, -⟩
        cases h
  | ok b =>
      change (pure b : Decoder α).run c = _ ↔ _
      rw [run_pure_eq_ok_iff, Except.ok.injEq, eq_comm]

theorem run_map_eq_ok_iff {f : α → β} {decoder : Decoder α} {b : β} :
    (f <$> decoder).run c = .ok b c' ↔ ∃ a, decoder.run c = .ok a c' ∧ b = f a := by
  rw [← bind_pure_comp, run_bind_eq_ok_iff]
  constructor
  · rintro ⟨a, c₁, hrun, hpure⟩
    obtain ⟨rfl, rfl⟩ := run_pure_eq_ok_iff.1 hpure
    exact ⟨a, hrun, rfl⟩
  · rintro ⟨a, hrun, rfl⟩
    exact ⟨a, c', hrun, rfl⟩

theorem run_map_eq_error_iff {f : α → β} {decoder : Decoder α} {e : Error} :
    (f <$> decoder).run c = .error e c' ↔ decoder.run c = .error e c' := by
  rw [← bind_pure_comp, EStateM.run_bind]
  cases decoder.run c with
  | ok a c₁ => exact ⟨nofun, nofun⟩
  | error e₁ c₁ => constructor <;> rintro ⟨⟩ <;> rfl

theorem run_seek_eq_ok_iff {pos : Nat} {u : Unit} :
    (seek pos).run c = .ok u c' ↔ pos ≤ c.data.size ∧ c' = { c with pos } := by
  rw [run_seek]
  split
  · simp
    omega
  · simp [eq_comm]
    omega

theorem run_skip_eq_ok_iff {n : Nat} {u : Unit} :
    (skip n).run c = .ok u c' ↔ c.pos + n ≤ c.data.size ∧ c' = { c with pos := c.pos + n } := by
  rw [run_skip]
  split <;> simp [*, eq_comm]

theorem run_take_eq_ok_iff {n : Nat} {bytes : ByteArray} :
    (take n).run c = .ok bytes c' ↔
      c.pos + n ≤ c.data.size ∧ bytes = c.data.extract c.pos (c.pos + n) ∧
        c' = { c with pos := c.pos + n } := by
  rw [run_take]
  split <;> simp [*, eq_comm]

theorem run_wordIn_eq_ok_iff {order : ByteOrder} {width n : Nat} :
    (wordIn order width).run c = .ok n c' ↔
      c.pos + width ≤ c.data.size ∧
        n = order.decode (c.data.extract c.pos (c.pos + width)).data.toList ∧
        c' = { c with pos := c.pos + width } := by
  rw [run_wordIn, ByteOrder.readWord]
  by_cases h : c.pos + width ≤ c.data.size <;> simp [h, eq_comm]

theorem run_word_eq_ok_iff {width n : Nat} :
    (word width).run c = .ok n c' ↔
      c.pos + width ≤ c.data.size ∧
        n = c.order.decode (c.data.extract c.pos (c.pos + width)).data.toList ∧
        c' = { c with pos := c.pos + width } :=
  run_wordIn_eq_ok_iff

theorem run_intIn_eq_ok_iff {order : ByteOrder} {type : IntType} {n : Int} :
    (intIn order type).run c = .ok n c' ↔
      c.pos + type.width ≤ c.data.size ∧
        n = type.ofWord (order.decode (c.data.extract c.pos (c.pos + type.width)).data.toList) ∧
        c' = { c with pos := c.pos + type.width } := by
  unfold intIn
  simp only [run_bind_eq_ok_iff, run_wordIn_eq_ok_iff, run_pure_eq_ok_iff]
  constructor
  · rintro ⟨_, _, ⟨h, rfl, rfl⟩, rfl, rfl⟩
    exact ⟨h, rfl, rfl⟩
  · rintro ⟨h, rfl, rfl⟩
    exact ⟨_, _, ⟨h, rfl, rfl⟩, rfl, rfl⟩

theorem run_int_eq_ok_iff {type : IntType} {n : Int} :
    (int type).run c = .ok n c' ↔
      c.pos + type.width ≤ c.data.size ∧
        n = type.ofWord
          (c.order.decode (c.data.extract c.pos (c.pos + type.width)).data.toList) ∧
        c' = { c with pos := c.pos + type.width } :=
  run_intIn_eq_ok_iff

theorem run_pointer_eq_ok_iff {n : Nat} :
    pointer.run c = .ok n c' ↔ ∃ size : PointerSize, c.pointerSize = size.bytes ∧
      c.pos + size.bytes ≤ c.data.size ∧
        n = c.order.decode (c.data.extract c.pos (c.pos + size.bytes)).data.toList ∧
        c' = { c with pos := c.pos + size.bytes } := by
  rw [run_pointer]
  cases hsize : PointerSize.ofBytes? c.pointerSize with
  | some size =>
      dsimp only
      rw [run_wordIn_eq_ok_iff]
      constructor
      · exact fun h => ⟨size, (PointerSize.bytes_of_ofBytes? hsize).symm, h⟩
      · rintro ⟨size', hsize', h⟩
        rw [hsize', PointerSize.ofBytes?_bytes] at hsize
        cases hsize
        exact h
  | none =>
      refine ⟨nofun, ?_⟩
      rintro ⟨size, hsize', -⟩
      rw [hsize', PointerSize.ofBytes?_bytes] at hsize
      cases hsize

end Steps
end Decoder

/-! ## Answers -/

/-- All answers of a run have a property. -/
def Yields {σ α : Type} (P : α → Prop) (x : EStateM Error σ α) : Prop :=
  ∀ s a s', x.run s = .ok a s' → P a

namespace Yields

variable {σ α β : Type} {P : β → Prop}

theorem pure {b : β} (hb : P b) : Yields P (Pure.pure b : EStateM Error σ β) := by
  rintro s _ s' ⟨⟩
  exact hb

theorem throw (e : Error) : Yields P (throw e : EStateM Error σ β) := by
  intro s b s' h
  cases h

/-- Only the last step of a sequence answers. -/
theorem bind {x : EStateM Error σ α} {f : α → EStateM Error σ β} (hf : ∀ a, Yields P (f a)) :
    Yields P (x >>= f) := by
  intro s b s' h
  rw [EStateM.run_bind] at h
  cases hrun : x.run s with
  | ok a s₁ =>
      rw [hrun] at h
      exact hf a s₁ b s' h
  | error e s₁ =>
      rw [hrun] at h
      cases h

theorem on {decoder : Decoder β} (h : Yields P decoder) {c : Cursor} {b : β}
    (hb : decoder.on c = .ok b) : P b := by
  obtain ⟨c', hrun⟩ := Decoder.on_eq_ok_iff.1 hb
  exact h c b c' hrun

end Yields

/-! ## Errors -/

/-- All errors of a run have a property. -/
def FailsOnly {σ α : Type} (P : Error → Prop) (x : EStateM Error σ α) : Prop :=
  ∀ s e s', x.run s = .error e s' → P e

namespace FailsOnly

variable {σ α β : Type} {P : Error → Prop}

theorem pure (a : α) : FailsOnly P (Pure.pure a : EStateM Error σ α) := by
  intro s e s' h
  cases h

theorem throw {e : Error} (he : P e) : FailsOnly P (throw e : EStateM Error σ α) := by
  rintro s _ s' ⟨⟩
  exact he

theorem modify (f : σ → σ) : FailsOnly P (modify f : EStateM Error σ Unit) := by
  intro s e s' h
  cases h

theorem get : FailsOnly P (MonadState.get : EStateM Error σ σ) := by
  intro s e s' h
  cases h

theorem set (s : σ) : FailsOnly P (MonadStateOf.set s : EStateM Error σ PUnit) := by
  intro s e s' h
  cases h

theorem ofExcept {x : Except Error α} (hx : ∀ e, x = .error e → P e) :
    FailsOnly P (ofExcept x : EStateM Error σ α) := by
  cases x with
  | ok a =>
      intro s e s' h
      cases h
  | error e =>
      rintro s _ s' ⟨⟩
      exact hx e rfl

theorem bind {x : EStateM Error σ α} {f : α → EStateM Error σ β} (hx : FailsOnly P x)
    (hf : ∀ a, FailsOnly P (f a)) : FailsOnly P (x >>= f) := by
  intro s e s' h
  rw [EStateM.run_bind] at h
  cases hrun : x.run s with
  | ok a s₁ =>
      rw [hrun] at h
      exact hf a s₁ e s' h
  | error e₁ s₁ =>
      rw [hrun] at h
      cases h
      exact hx s e s' hrun

theorem map {x : EStateM Error σ α} (hx : FailsOnly P x) (f : α → β) : FailsOnly P (f <$> x) := by
  rw [← bind_pure_comp]
  exact hx.bind fun _ => .pure _

theorem on {decoder : Decoder α} (h : FailsOnly P decoder) {c : Cursor} {e : Error}
    (he : decoder.on c = .error e) : P e := by
  obtain ⟨c', hrun⟩ := Decoder.on_eq_error_iff.1 he
  exact h c e c' hrun

theorem seek (h : P .outOfBounds) (pos : Nat) : FailsOnly P (Decoder.seek pos) := by
  intro c e c' he
  rw [Decoder.run_seek] at he
  split at he
  · cases he
    exact h
  · cases he

theorem pointer (hend : P .outOfBounds) (hsize : ∀ n, P (.malformed (.pointerSize n))) :
    FailsOnly P Decoder.pointer := by
  intro c e c' he
  rw [Decoder.run_pointer] at he
  split at he
  · rw [Decoder.run_wordIn] at he
    unfold ByteOrder.readWord at he
    grind
  · cases he
    exact hsize c.pointerSize

end FailsOnly

/-! ## Faults of decoders -/

/-- Whether reading went beyond the end of the data, or met bytes that do not form a value. -/
def Error.IsReadFault : Error → Prop
  | .outOfBounds | .malformed _ => True
  | _ => False

theorem isReadFault_of_varintGroups {shift : Nat} {bytes : List UInt8} {e : Error}
    (h : (varintGroups shift bytes).1 = .error e) : e.IsReadFault := by
  induction bytes generalizing shift with
  | nil =>
      cases h
      trivial
  | cons b rest ih =>
      unfold varintGroups at h
      split at h
      · cases h
        trivial
      · split at h
        · cases h
        · cases hrest : (varintGroups (shift + 7) rest).1 with
          | ok value =>
              dsimp only at h
              rw [hrest] at h
              cases h
          | error e' =>
              dsimp only at h
              rw [hrest] at h
              cases h
              exact ih hrest

namespace FailsOnly

variable {α : Type}

theorem skip (n : Nat) : FailsOnly Error.IsReadFault (Decoder.skip n) := by
  intro c e c' h
  rw [Decoder.run_skip] at h
  split at h
  · cases h
  · cases h
    trivial

theorem take (n : Nat) : FailsOnly Error.IsReadFault (Decoder.take n) := by
  intro c e c' h
  rw [Decoder.run_take] at h
  split at h
  · cases h
  · cases h
    trivial

theorem wordIn (order : ByteOrder) (width : Nat) :
    FailsOnly Error.IsReadFault (Decoder.wordIn order width) := by
  intro c e c' h
  rw [Decoder.run_wordIn] at h
  unfold ByteOrder.readWord at h
  split at h
  · cases h
  · rename_i hread
    cases h
    split at hread
    · cases hread
    · cases hread
      trivial

theorem word (width : Nat) : FailsOnly Error.IsReadFault (Decoder.word width) :=
  .bind .get fun _ => .wordIn _ width

theorem intIn (order : ByteOrder) (type : IntType) :
    FailsOnly Error.IsReadFault (Decoder.intIn order type) :=
  .bind (.wordIn _ _) fun _ => .pure _

theorem int (type : IntType) : FailsOnly Error.IsReadFault (Decoder.int type) :=
  .bind .get fun _ => .intIn _ _

theorem pointer_isReadFault : FailsOnly Error.IsReadFault Decoder.pointer :=
  .pointer trivial fun _ => trivial

theorem skipPointers (n : Nat) : FailsOnly Error.IsReadFault (Decoder.skipPointers n) :=
  .bind .get fun _ => .skip _

theorem uvarint : FailsOnly Error.IsReadFault Decoder.uvarint := by
  intro c e c' h
  rw [Decoder.run_uvarint] at h
  split at h
  · cases h
  · rename_i hgroups
    cases h
    exact isReadFault_of_varintGroups (congrArg Prod.fst hgroups)

theorem text : FailsOnly Error.IsReadFault Decoder.text := by
  intro c e c' h
  rw [Decoder.run_text] at h
  dsimp only at h
  split at h
  · cases h
  · cases h
    trivial

theorem times {P : Error → Prop} {decoder : Decoder α} (h : FailsOnly P decoder) (n : Nat) :
    FailsOnly P (Decoder.times decoder n) := by
  induction n with
  | zero => exact .pure []
  | succ n ih => exact h.bind fun _ => ih.bind fun _ => .pure _

end FailsOnly

end GoImage
