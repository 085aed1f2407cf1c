import GoImage.Proofs.TypeInfo.PlainText

/-! # What a catalogue remembers

A catalogue only remembers what is true of the descriptors: each descriptor as it is read, and a
text only if it is the plain one. -/

namespace GoImage.Catalogue

/-! ## Sound catalogues -/

/-- If reading fails at an address, that is remembered. -/
def Met (read : Nat → Except Error Descriptor) (c : Catalogue) (va : Nat) : Prop :=
  ∀ e, read va = .error e → c.failures[va]? = some e

/-- All that is remembered is true, and texts are remembered from the innermost type outwards, when
all that they are put together from has been looked at. -/
structure Sound (read : Nat → Except Error Descriptor) (c : Catalogue) : Prop where
  indexed : ∀ {va i}, c.index[va]? = some i → ∃ d, c.arena[i]? = some d ∧ read va = .ok d
  failed : ∀ {va e}, c.failures[va]? = some e → read va = .error e
  rendered : ∀ {va text}, c.rendered[va]? = some text →
    Unnamed read va ∧ plainReference read va = some text
  closed : ∀ {va target}, va ∈ c.rendered → Refers read va target → target ∈ c.rendered
  asked : ∀ {va d w}, va ∈ c.rendered → read va = .ok d → w ∈ visited read d → Met read c w

theorem Met.of_ok {read : Nat → Except Error Descriptor} {c : Catalogue} {va : Nat}
    {d : Descriptor} (h : read va = .ok d) : Met read c va := by
  intro e he
  rw [h] at he
  cases he

theorem Sound.empty (read : Nat → Except Error Descriptor) : Sound read {} := by
  constructor <;> intros <;> simp_all

/-- The catalogue after the descriptor at an address has been asked for. -/
def remember (read : Nat → Except Error Descriptor) (c : Catalogue) (va : Nat) : Catalogue :=
  ((lookup read va).run c).2

section Lookup

variable {read : Nat → Except Error Descriptor} {c : Catalogue} {va : Nat}

theorem Sound.known? (hc : Sound read c) {d : Descriptor} (h : c.known? va = some d) :
    read va = .ok d := by
  obtain ⟨i, hi, hd⟩ := Option.bind_eq_some_iff.1 h
  obtain ⟨d', hd', hread⟩ := hc.indexed hi
  rw [Option.some.inj (hd.symm.trans hd')]
  exact hread

theorem Sound.keep (hc : Sound read c) {d : Descriptor} (h : read va = .ok d) :
    Sound read (c.keep va d) := by
  refine ⟨?_, hc.failed, hc.rendered, hc.closed, hc.asked⟩
  intro w i hi
  simp only [Catalogue.keep, Std.HashMap.getElem?_insert] at hi ⊢
  split at hi
  · rename_i hw
    cases hi
    exact ⟨d, by simp, by rw [← eq_of_beq hw, h]⟩
  · obtain ⟨d', hd', hread⟩ := hc.indexed hi
    have hlt : i < c.arena.size := (Array.getElem?_eq_some_iff.1 hd').1
    exact ⟨d', by rw [Array.getElem?_push_lt hlt, ← hd', Array.getElem?_eq_getElem hlt], hread⟩

theorem Sound.fail (hc : Sound read c) {e : Error} (h : read va = .error e) :
    Sound read { c with failures := c.failures.insert va e } := by
  refine ⟨hc.indexed, ?_, hc.rendered, hc.closed, ?_⟩
  · intro w e' he
    simp only [Std.HashMap.getElem?_insert] at he
    split at he
    · rename_i hw
      cases he
      rw [← eq_of_beq hw, h]
    · exact hc.failed he
  · intro u d w hu hread hw e' he
    simp only [Std.HashMap.getElem?_insert]
    split
    · rename_i hwva
      rw [← eq_of_beq hwva, h] at he
      exact congrArg some (Except.error.inj he)
    · exact hc.asked hu hread hw e' he

theorem lookup_run (read : Nat → Except Error Descriptor) (c : Catalogue) (va : Nat) :
    (lookup read va).run c =
      match c.known? va with
      | some d => (.ok d, c)
      | none =>
        match c.failures[va]? with
        | some e => (.error (.descriptor va e), c)
        | none =>
          match read va with
          | .ok d => (.ok d, c.keep va d)
          | .error e => (.error e, { c with failures := c.failures.insert va e }) := by
  unfold lookup
  simp only [StateT.run_bind, StateT.run_get, pure_bind]
  cases c.known? va with
  | some d => rfl
  | none =>
      cases c.failures[va]? with
      | some e => rfl
      | none => cases read va <;> rfl

/-- What is noted of descriptors stays as it is: descriptors and failures are only added. -/
structure Grows (c c' : Catalogue) : Prop where
  arena : c.arena.toList <+: c'.arena.toList
  index : ∀ {va i : Nat}, c.index[va]? = some i → c'.index[va]? = some i
  failures : ∀ {va : Nat} {e : Error}, c.failures[va]? = some e → c'.failures[va]? = some e

theorem Grows.refl (c : Catalogue) : Grows c c :=
  ⟨List.prefix_rfl, id, id⟩

theorem Grows.trans {c c' c'' : Catalogue} (h₁ : Grows c c') (h₂ : Grows c' c'') : Grows c c'' :=
  ⟨h₁.arena.trans h₂.arena, fun h => h₂.index (h₁.index h), fun h => h₂.failures (h₁.failures h)⟩

/-- The texts of a catalogue and the state of their writing are those of another one. -/
structure SameTexts (c c' : Catalogue) : Prop where
  rendered : c'.rendered = c.rendered
  inProgress : c'.inProgress = c.inProgress
  backReferences : c'.backReferences = c.backReferences

theorem Sound.writing (hc : Sound read c) (vas : List Nat) :
    Sound read { c with inProgress := vas } :=
  ⟨hc.indexed, hc.failed, hc.rendered, hc.closed, hc.asked⟩

/-- Asking for a descriptor gives what reading gives, and touches no text. -/
theorem lookup_spec (hc : Sound read c) (va : Nat) :
    ((lookup read va).run c).1.toOption = (read va).toOption ∧
      Sound read (c.remember read va) ∧ SameTexts c (c.remember read va) := by
  unfold remember
  rw [lookup_run]
  cases hknown : c.known? va with
  | some d =>
      rw [hc.known? hknown]
      exact ⟨rfl, hc, rfl, rfl, rfl⟩
  | none =>
      dsimp only
      cases hfailed : c.failures[va]? with
      | some e =>
          rw [hc.failed hfailed]
          exact ⟨rfl, hc, rfl, rfl, rfl⟩
      | none =>
          dsimp only
          cases hread : read va with
          | ok d => exact ⟨rfl, hc.keep hread, rfl, rfl, rfl⟩
          | error e => exact ⟨rfl, hc.fail hread, rfl, rfl, rfl⟩

theorem Sound.remember (hc : Sound read c) (va : Nat) : Sound read (c.remember read va) :=
  (lookup_spec hc va).2.1

theorem Sound.sameTexts_remember (hc : Sound read c) (va : Nat) :
    SameTexts c (c.remember read va) :=
  (lookup_spec hc va).2.2

theorem Sound.index_of_known? (hc : Sound read c) (h : c.known? va = none) :
    c.index[va]? = none := by
  rw [Option.eq_none_iff_forall_ne_some]
  intro i hi
  obtain ⟨d, hd, -⟩ := hc.indexed hi
  rw [Catalogue.known?, hi, Option.bind_some, hd] at h
  cases h

/-- Nothing is noted twice: only what is not known yet is read. -/
theorem Sound.grows_remember (hc : Sound read c) (va : Nat) : Grows c (c.remember read va) := by
  unfold Catalogue.remember
  rw [lookup_run]
  cases hknown : c.known? va with
  | some d => exact .refl c
  | none =>
      dsimp only
      cases hfailed : c.failures[va]? with
      | some e => exact .refl c
      | none =>
          dsimp only
          cases read va with
          | ok d =>
              refine ⟨by simp [Catalogue.keep], fun {w i} hi => ?_, id⟩
              dsimp only [Catalogue.keep]
              rw [Std.HashMap.getElem?_insert, if_neg, hi]
              intro hw
              rw [← eq_of_beq hw, hc.index_of_known? hknown] at hi
              cases hi
          | error e =>
              refine ⟨List.prefix_rfl, id, fun {w e'} he => ?_⟩
              rw [Std.HashMap.getElem?_insert, if_neg, he]
              intro hw
              rw [← eq_of_beq hw, hfailed] at he
              cases he

theorem lookup_run_ok (hc : Sound read c) {d : Descriptor} (h : read va = .ok d) :
    (lookup read va).run c = (.ok d, c.remember read va) := by
  have hspec := (lookup_spec hc va).1
  refine Prod.ext ?_ rfl
  cases hrun : ((lookup read va).run c).1 with
  | ok d' =>
      rw [hrun, h] at hspec
      rw [Option.some.inj hspec]
  | error e => rw [hrun, h] at hspec; cases hspec

theorem lookup_run_error (hc : Sound read c) {e : Error} (h : read va = .error e) :
    ∃ e', (lookup read va).run c = (.error e', c.remember read va) := by
  have hspec := (lookup_spec hc va).1
  cases hrun : ((lookup read va).run c).1 with
  | ok d' => rw [hrun, h] at hspec; cases hspec
  | error e' => exact ⟨e', Prod.ext hrun rfl⟩

theorem lookupShape?_run (hc : Sound read c) (va : Nat) :
    (lookupShape? read va).run c = (shapeAt? read va, c.remember read va) := by
  unfold lookupShape? shapeAt?
  rw [StateT.run_bind]
  cases hread : read va with
  | ok d => rw [lookup_run_ok hc hread]; rfl
  | error e =>
      obtain ⟨e', hrun⟩ := lookup_run_error hc hread
      rw [hrun]
      rfl

theorem Sound.known?_of_error (hc : Sound read c) {e : Error} (h : read va = .error e) :
    c.known? va = none := by
  rw [Option.eq_none_iff_forall_ne_some]
  intro d hd
  rw [hc.known? hd] at h
  cases h

theorem Sound.failures_of_mem (hc : Sound read c) {e : Error} (h : read va = .error e)
    (hva : va ∈ c.failures) : c.failures[va]? = some e := by
  have hnoted := Std.HashMap.getElem?_eq_some_getElem hva
  rw [hnoted, Except.error.inj ((hc.failed hnoted).symm.trans h)]

/-- The first failure is that of reading. -/
theorem lookup_of_notMem (hc : Sound read c) {e : Error} (h : read va = .error e)
    (hva : va ∉ c.failures) :
    (lookup read va).run c = (.error e, { c with failures := c.failures.insert va e }) := by
  rw [lookup_run, hc.known?_of_error h, Std.HashMap.getElem?_eq_none hva, h]

/-- Every other one names the first as its cause, and nothing more is remembered. -/
theorem lookup_of_mem (hc : Sound read c) {e : Error} (h : read va = .error e)
    (hva : va ∈ c.failures) : (lookup read va).run c = (.error (.descriptor va e), c) := by
  rw [lookup_run, hc.known?_of_error h, hc.failures_of_mem h hva]

theorem Sound.met_remember (hc : Sound read c) (va : Nat) : Met read (c.remember read va) va := by
  intro e he
  unfold Catalogue.remember
  by_cases hva : va ∈ c.failures
  · rw [lookup_of_mem hc he hva]
    exact hc.failures_of_mem he hva
  · rw [lookup_of_notMem hc he hva]
    exact Std.HashMap.getElem?_insert_self

end Lookup

/-! ## Runs of `reference` -/

/-- What happens when the text of a type is finished: it is remembered if no reference in it was
cut short. -/
def settle (c : Catalogue) (before va : Nat) (text : String) : Catalogue :=
  let c := { c with inProgress := c.inProgress.erase va }
  if c.backReferences = before then { c with rendered := c.rendered.insert va text } else c

@[simp]
theorem settle_backReferences (c : Catalogue) (before va : Nat) (text : String) :
    (c.settle before va text).backReferences = c.backReferences := by
  unfold settle
  dsimp only
  split <;> rfl

@[simp]
theorem settle_failures (c : Catalogue) (before va : Nat) (text : String) :
    (c.settle before va text).failures = c.failures := by
  unfold settle
  dsimp only
  split <;> rfl

theorem settle_of_eq {c : Catalogue} {before : Nat} (h : c.backReferences = before) (va : Nat)
    (text : String) :
    c.settle before va text =
      { c with
        inProgress := c.inProgress.erase va
        rendered := c.rendered.insert va text } := by
  unfold settle
  exact if_pos h

section Reference

variable {read : Nat → Except Error Descriptor} {c : Catalogue} {room va : Nat}

theorem reference_of_error (hc : Sound read c) {e : Error} (h : read va = .error e) :
    (reference read room va).run c = (invalidText va, c.remember read va) := by
  obtain ⟨e', hrun⟩ := lookup_run_error hc h
  unfold reference
  rw [StateT.run_bind, hrun]
  rfl

theorem reference_of_named (hc : Sound read c) {d : Descriptor} (h : read va = .ok d)
    (hd : d.isNamed = true) :
    (reference read room va).run c = (d.name, c.remember read va) := by
  unfold reference
  rw [StateT.run_bind, lookup_run_ok hc h]
  change StateT.run (ite _ _ _) _ = _
  rw [if_pos hd]
  rfl

/-- The text of a type without a name, once its descriptor is known. -/
theorem reference_of_unnamed (hc : Sound read c) {d : Descriptor} (h : read va = .ok d)
    (hd : d.isNamed = false) :
    (reference read room va).run c =
      let c := c.remember read va
      match c.rendered[va]? with
      | some text => (text, c)
      | none =>
        match room with
        | 0 => (backReference va).run c
        | room + 1 =>
          if va ∈ c.inProgress then (backReference va).run c
          else
            let p := ((spelling read (reference read room)).literal d).run
              { c with inProgress := va :: c.inProgress }
            (p.1, p.2.settle c.backReferences va p.1) := by
  unfold reference
  rw [StateT.run_bind, lookup_run_ok hc h]
  change StateT.run (ite _ _ _) _ = _
  rw [if_neg (by simp [hd])]
  change StateT.run (match (c.remember read va).rendered[va]? with | some _ => _ | none => _) _ = _
  dsimp only
  cases (c.remember read va).rendered[va]? with
  | some text => rfl
  | none =>
      cases room with
      | zero => rfl
      | succ room =>
          by_cases hva : va ∈ (c.remember read va).inProgress
          · simp only [hva, if_true]
          · simp only [hva, if_false]
            rfl

/-- What is not a type without a name, or is remembered, is written as its plain text at once. -/
theorem reference_of_known (hc : Sound read c) (room : Nat)
    (hva : Unnamed read va → va ∈ c.rendered) :
    ∃ text, plainReference read va = some text ∧
      (reference read room va).run c = (text, c.remember read va) := by
  cases hread : read va with
  | error e => exact ⟨_, plainReference_of_error hread, reference_of_error hc hread⟩
  | ok d =>
      cases hd : d.isNamed with
      | true => exact ⟨_, plainReference_of_named hread hd, reference_of_named hc hread hd⟩
      | false =>
          have htext := Std.HashMap.getElem?_eq_some_getElem (hva ⟨d, hread, hd⟩)
          refine ⟨_, (hc.rendered htext).2, ?_⟩
          rw [reference_of_unnamed hc hread hd]
          dsimp only
          rw [(hc.sameTexts_remember va).rendered, htext]

/-- What is not remembered is cut if there is no room, or if it is being written. -/
theorem reference_of_cut (hc : Sound read c) (hunnamed : Unnamed read va) (hva : va ∉ c.rendered)
    (hcut : room = 0 ∨ va ∈ c.inProgress) :
    (reference read room va).run c = (backReference va).run (c.remember read va) := by
  obtain ⟨d, hread, hd⟩ := hunnamed
  have hsame := hc.sameTexts_remember va
  have hnone : (c.remember read va).rendered[va]? = none := by
    rw [hsame.rendered, Std.HashMap.getElem?_eq_none hva]
  rw [reference_of_unnamed hc hread hd]
  dsimp only
  rw [hnone]
  dsimp only
  cases room with
  | zero => rfl
  | succ room =>
      have hprogress : va ∈ (c.remember read va).inProgress := by
        rw [hsame.inProgress]
        exact hcut.resolve_left (Nat.succ_ne_zero room)
      dsimp only
      rw [if_pos hprogress]

/-- What is not remembered is written as its literal if there is room and it is not being written
already. -/
theorem reference_of_written (hc : Sound read c) {d : Descriptor} (hread : read va = .ok d)
    (hd : d.isNamed = false) (hva : va ∉ c.rendered) (hprogress : va ∉ c.inProgress) :
    (reference read (room + 1) va).run c =
      let c := c.remember read va
      let p := ((spelling read (reference read room)).literal d).run
        { c with inProgress := va :: c.inProgress }
      (p.1, p.2.settle c.backReferences va p.1) := by
  have hsame := hc.sameTexts_remember va
  have hnone : (c.remember read va).rendered[va]? = none := by
    rw [hsame.rendered, Std.HashMap.getElem?_eq_none hva]
  rw [reference_of_unnamed hc hread hd]
  dsimp only
  rw [hnone]
  dsimp only
  rw [if_neg (hsame.inProgress ▸ hprogress)]

end Reference

/-- What a reference comes to with so much room: it is known at once, it is cut, or its literal is
written. -/
inductive ReferenceCase (read : Nat → Except Error Descriptor) (c : Catalogue) (va : Nat) :
    Nat → Prop
  | known {room : Nat} (hva : Unnamed read va → va ∈ c.rendered) : ReferenceCase read c va room
  | cut {room : Nat} (hva : Unnamed read va) (hrendered : va ∉ c.rendered)
    (hcut : room = 0 ∨ va ∈ c.inProgress) : ReferenceCase read c va room
  | written {room : Nat} {d : Descriptor} (hread : read va = .ok d) (hd : d.isNamed = false)
    (hrendered : va ∉ c.rendered) (hprogress : va ∉ c.inProgress) :
    ReferenceCase read c va (room + 1)

theorem referenceCase (read : Nat → Except Error Descriptor) (c : Catalogue) (room va : Nat) :
    ReferenceCase read c va room := by
  by_cases hknown : Unnamed read va → va ∈ c.rendered
  · exact .known hknown
  · obtain ⟨hva, hrendered⟩ := Classical.not_imp.1 hknown
    by_cases hprogress : va ∈ c.inProgress
    · exact .cut hva hrendered (.inr hprogress)
    · cases room with
      | zero => exact .cut hva hrendered (.inl rfl)
      | succ room =>
          obtain ⟨d, hread, hd⟩ := hva
          exact .written hread hd hrendered hprogress

/-! ## What a run leaves behind -/

/-- What a run does to a catalogue, whatever it writes. -/
structure Step (read : Nat → Except Error Descriptor) (c c' : Catalogue) : Prop where
  sound : Sound read c'
  inProgress : c'.inProgress = c.inProgress
  backReferences : c.backReferences ≤ c'.backReferences
  rendered : ∀ {va}, va ∈ c.rendered → va ∈ c'.rendered
  grows : Grows c c'

namespace Step

variable {read : Nat → Except Error Descriptor} {c c' c'' : Catalogue}

theorem refl (hc : Sound read c) : Step read c c :=
  ⟨hc, rfl, Nat.le_refl _, id, .refl c⟩

theorem trans (h₁ : Step read c c') (h₂ : Step read c' c'') : Step read c c'' :=
  ⟨h₂.sound, h₂.inProgress.trans h₁.inProgress, Nat.le_trans h₁.backReferences h₂.backReferences,
    fun hva => h₂.rendered (h₁.rendered hva), h₁.grows.trans h₂.grows⟩

/-- Two runs that together cut nothing short cut nothing short each. -/
theorem quiet_trans (h₁ : Step read c c') (h₂ : Step read c' c'')
    (h : c''.backReferences = c.backReferences) :
    c'.backReferences = c.backReferences ∧ c''.backReferences = c'.backReferences := by
  have hle₁ := h₁.backReferences
  have hle₂ := h₂.backReferences
  omega

theorem remember (hc : Sound read c) (va : Nat) : Step read c (c.remember read va) := by
  have hsame := hc.sameTexts_remember va
  exact ⟨hc.remember va, hsame.inProgress, Nat.le_of_eq hsame.backReferences.symm,
    fun hva => hsame.rendered ▸ hva, hc.grows_remember va⟩

end Step

theorem Met.step {read : Nat → Except Error Descriptor} {c c' : Catalogue} {va : Nat}
    (h : Met read c va) (hstep : Step read c c') : Met read c' va :=
  fun e he => hstep.grows.failures (h e he)

theorem Met.settle {read : Nat → Except Error Descriptor} {c : Catalogue} {w : Nat}
    (h : Met read c w) (before va : Nat) (text : String) :
    Met read (c.settle before va text) w := by
  intro e he
  rw [settle_failures]
  exact h e he

/-- A way to write references that looks at each descriptor. -/
def LooksUp (read : Nat → Except Error Descriptor) (f : Nat → Cataloguing String) : Prop :=
  ∀ va c, Sound read c → Met read ((f va).run c).2 va

theorem reference_looksUp (read : Nat → Except Error Descriptor) (room : Nat) :
    LooksUp read (reference read room) := by
  intro va c hc
  cases hread : read va with
  | ok d => exact .of_ok hread
  | error e =>
      rw [reference_of_error hc hread]
      exact hc.met_remember va

/-- The left run writes what the right one writes, unless it cuts a reference short. -/
def writesPlain (read : Nat → Except Error Descriptor) : RunRel Cataloguing Option where
  rel R x y := ∀ c, Sound read c → Step read c (x.run c).2 ∧
    ∃ b, R (x.run c).1 b ∧ ((x.run c).2.backReferences = c.backReferences → y = some b)
  pure hab _ hc := ⟨.refl hc, _, hab, fun _ => rfl⟩
  bind := by
    intro _ _ _ _ R S x y f g hxy hfg c hc
    obtain ⟨hstep, b, hab, hy⟩ := hxy c hc
    obtain ⟨hstep', b', hab', hg⟩ := hfg _ b hab _ hstep.sound
    refine ⟨hstep.trans hstep', b', hab', fun hquiet => ?_⟩
    obtain ⟨hquiet₁, hquiet₂⟩ := hstep.quiet_trans hstep' hquiet
    rw [hy hquiet₁]
    exact hg hquiet₂

/-- Unless the left run cuts a reference short, it leaves the texts of all types without a name
that the right one notes. -/
def remembersNoted (read : Nat → Except Error Descriptor) :
    RunRel Cataloguing (StateM (List Nat)) where
  rel R x y := ∀ c l, Sound read c → R (x.run c).1 (y.run l).1 ∧ Step read c (x.run c).2 ∧
    ((x.run c).2.backReferences = c.backReferences →
      (∀ va ∈ l, Unnamed read va → va ∈ c.rendered) →
      ∀ va ∈ (y.run l).2, Unnamed read va → va ∈ (x.run c).2.rendered)
  pure hab _ _ hc := ⟨hab, .refl hc, fun _ hl => hl⟩
  bind := by
    intro _ _ _ _ R S x y f g hxy hfg c l hc
    obtain ⟨hab, hstep, hx⟩ := hxy c l hc
    obtain ⟨hab', hstep', hf⟩ := hfg _ _ hab _ (y.run l).2 hstep.sound
    refine ⟨hab', hstep.trans hstep', fun hquiet hl => ?_⟩
    obtain ⟨hquiet₁, hquiet₂⟩ := hstep.quiet_trans hstep' hquiet
    exact hf hquiet₂ (hx hquiet₁ hl)

/-- From catalogues with a property that runs keep, the left run leaves catalogues that have another
one of each address which the right one notes. -/
def leavesNoted (read : Nat → Except Error Descriptor) {P : Catalogue → Prop}
    (hP : ∀ {c c'}, P c → Step read c c' → P c') (Q : Catalogue → Nat → Prop) :
    RunRel Cataloguing (StateM (List Nat)) where
  rel R x y := ∀ c l, Sound read c → P c → R (x.run c).1 (y.run l).1 ∧ Step read c (x.run c).2 ∧
    ((∀ va ∈ l, Q c va) → ∀ va ∈ (y.run l).2, Q (x.run c).2 va)
  pure hab _ _ hc _ := ⟨hab, .refl hc, fun hl => hl⟩
  bind := by
    intro _ _ _ _ R S x y f g hxy hfg c l hc hcP
    obtain ⟨hab, hstep, hx⟩ := hxy c l hc hcP
    obtain ⟨hab', hstep', hf⟩ := hfg _ _ hab _ (y.run l).2 hstep.sound (hP hcP hstep)
    exact ⟨hab', hstep.trans hstep', fun hl => hf (hx hl)⟩

/-- A way to write references that remembers, unless it cuts something short, only plain texts. -/
def PlainUnlessCut (read : Nat → Except Error Descriptor) (f : Nat → Cataloguing String) : Prop :=
  ∀ va c, Sound read c → Step read c ((f va).run c).2 ∧
    (((f va).run c).2.backReferences = c.backReferences →
      plainReference read va = some ((f va).run c).1 ∧
        (Unnamed read va → va ∈ ((f va).run c).2.rendered))

section PlainUnlessCut

variable {read : Nat → Except Error Descriptor} {f : Nat → Cataloguing String}

theorem related_writesPlain (hf : PlainUnlessCut read f) (vas : List Nat) :
    Speller.Related (writesPlain read) (· = ·) (shapeAt? read) vas (spelling read f)
      (plainSpelling read (plainReference read)) := by
  constructor
  · intro va c hc
    have hstep := Step.remember hc va
    rw [show ((spelling read f).shape? va).run c = _ from lookupShape?_run hc va]
    exact ⟨hstep, _, ⟨rfl, rfl⟩, fun _ => rfl⟩
  · intro va _ c hc
    obtain ⟨hstep, hplain⟩ := hf va c hc
    exact ⟨hstep, _, rfl, fun hquiet => (hplain hquiet).1⟩

theorem related_remembersNoted (hf : PlainUnlessCut read f) (vas : List Nat) :
    Speller.Related (remembersNoted read) (fun _ _ => True) (shapeAt? read) vas (spelling read f)
      (noting (shapeAt? read)) := by
  constructor
  · intro va c l hc
    have hstep := Step.remember hc va
    rw [show ((spelling read f).shape? va).run c = _ from lookupShape?_run hc va]
    exact ⟨⟨rfl, rfl⟩, hstep, fun _ hl w hw hnamed => hstep.rendered (hl w hw hnamed)⟩
  · intro va _ c l hc
    obtain ⟨hstep, hplain⟩ := hf va c hc
    refine ⟨trivial, hstep, fun hquiet hl w hw hnamed => ?_⟩
    rcases List.mem_append.1 hw with hw | hw
    · exact hstep.rendered (hl w hw hnamed)
    · rw [List.mem_singleton.1 hw] at hnamed ⊢
      exact (hplain hquiet).2 hnamed

theorem literal_plainUnlessCut (hf : PlainUnlessCut read f) (d : Descriptor) {c : Catalogue}
    (hc : Sound read c) :
    let p := ((spelling read f).literal d).run c
    Step read c p.2 ∧ (p.2.backReferences = c.backReferences →
      (plainSpelling read (plainReference read)).literal d = some p.1 ∧
        ∀ va ∈ d.shape.inlineReferences (shapeAt? read), Unnamed read va → va ∈ p.2.rendered) := by
  obtain ⟨hstep, text, rfl, hplain⟩ := (related_writesPlain hf _).literal TextRel.eq c hc
  obtain ⟨-, -, hnoted⟩ :=
    (related_remembersNoted hf _).literal ⟨fun _ => trivial, fun _ _ => trivial⟩ c [] hc
  refine ⟨hstep, fun hquiet => ⟨hplain hquiet, fun va hva => ?_⟩⟩
  refine hnoted hquiet (by simp) va ?_
  rw [noting_literal]
  exact hva

section LooksUp

variable (hf : PlainUnlessCut read f) (hlooks : LooksUp read f)
include hf hlooks

theorem related_looksUp (vas : List Nat) :
    Speller.Related (leavesNoted read (P := fun _ => True) (fun _ _ => trivial) (Met read))
      (fun _ _ => True) (shapeAt? read) vas (spelling read f) (visiting (shapeAt? read)) := by
  have hnoted : ∀ {c c' : Catalogue} {l : List Nat} {va : Nat}, Step read c c' → Met read c' va →
      (∀ w ∈ l, Met read c w) → ∀ w ∈ l ++ [va], Met read c' w := by
    intro c c' l va hstep hva hl w hw
    rcases List.mem_append.1 hw with hw | hw
    · exact (hl w hw).step hstep
    · rwa [List.mem_singleton.1 hw]
  constructor
  · intro va c l hc _
    rw [show ((spelling read f).shape? va).run c = _ from lookupShape?_run hc va]
    exact ⟨⟨rfl, rfl⟩, .remember hc va, hnoted (.remember hc va) (hc.met_remember va)⟩
  · intro va _ c l hc _
    have hstep := (hf va c hc).1
    exact ⟨trivial, hstep, hnoted hstep (hlooks va c hc)⟩

theorem met_definition {c : Catalogue} (hc : Sound read c) {d : Descriptor} {w : Nat}
    (hw : w ∈ visited read d) : Met read (((spelling read f).definition d).run c).2 w := by
  obtain ⟨-, -, hmet⟩ := (related_looksUp hf hlooks _).definition
    ⟨fun _ => trivial, fun _ _ => trivial⟩ (d := d) c [] hc trivial
  exact hmet (by simp) w hw

theorem met_literal {c : Catalogue} (hc : Sound read c) {d : Descriptor} {w : Nat}
    (hw : w ∈ visited read d) : Met read (((spelling read f).literal d).run c).2 w := by
  obtain ⟨-, -, hmet⟩ := (related_looksUp hf hlooks _).literal
    ⟨fun _ => trivial, fun _ _ => trivial⟩ (d := d) c [] hc trivial
  rw [visiting_literal] at hmet
  exact hmet (by simp) w hw

end LooksUp

/-- A finished text may be remembered once those that it refers to are. -/
theorem Sound.insert {c : Catalogue} (hc : Sound read c) {va : Nat} {d : Descriptor}
    {text : String} (hread : read va = .ok d) (hd : d.isNamed = false)
    (htext : plainReference read va = some text)
    (hrefs : ∀ w ∈ d.shape.inlineReferences (shapeAt? read), Unnamed read w → w ∈ c.rendered)
    (hasked : ∀ w ∈ visited read d, Met read c w) :
    Sound read { c with rendered := c.rendered.insert va text } := by
  refine ⟨hc.indexed, hc.failed, ?_, ?_, ?_⟩
  · intro w text' h
    rw [Std.HashMap.getElem?_insert] at h
    split at h
    · rename_i hw
      cases h
      rw [← eq_of_beq hw]
      exact ⟨⟨d, hread, hd⟩, htext⟩
    · exact hc.rendered h
  · intro w target hw href
    simp only [Std.HashMap.mem_insert, beq_iff_eq] at hw ⊢
    right
    rcases hw with rfl | hw
    · obtain ⟨d', hread', hmem, htarget⟩ := href
      obtain rfl : d = d' := Except.ok.inj (hread.symm.trans hread')
      exact hrefs target hmem htarget
    · exact hc.closed hw href
  · intro w d' u hw hread' hu
    simp only [Std.HashMap.mem_insert, beq_iff_eq] at hw
    rcases hw with rfl | hw
    · obtain rfl : d = d' := Except.ok.inj (hread.symm.trans hread')
      exact hasked u hu
    · exact hc.asked hw hread' hu

theorem Step.settle {c c' : Catalogue} {va : Nat} {d : Descriptor} {text : String}
    (hread : read va = .ok d) (hd : d.isNamed = false)
    (hstep : Step read { c with inProgress := va :: c.inProgress } c')
    (hplain : c'.backReferences = c.backReferences →
      (plainSpelling read (plainReference read)).literal d = some text ∧
        ∀ w ∈ d.shape.inlineReferences (shapeAt? read), Unnamed read w → w ∈ c'.rendered)
    (hasked : ∀ w ∈ visited read d, Met read c' w) :
    Step read c (c'.settle c.backReferences va text) := by
  have hsound := hstep.sound.writing (c'.inProgress.erase va)
  have hprogress : c'.inProgress.erase va = c.inProgress := by
    rw [hstep.inProgress]
    simp
  obtain ⟨harena, hindex, hfailures⟩ := hstep.grows
  unfold Catalogue.settle
  dsimp only
  split
  · rename_i hquiet
    obtain ⟨hliteral, hrefs⟩ := hplain hquiet
    rw [← plainReference_of_unnamed hread hd] at hliteral
    refine ⟨hsound.insert hread hd hliteral hrefs hasked, hprogress, hstep.backReferences,
      fun hw => ?_, ⟨harena, hindex, hfailures⟩⟩
    exact Std.HashMap.mem_insert.2 (.inr (hstep.rendered hw))
  · exact ⟨hsound, hprogress, hstep.backReferences, hstep.rendered,
      ⟨harena, hindex, hfailures⟩⟩

theorem backReference_cuts {c : Catalogue} (hc : Sound read c) (va : Nat) :
    Step read c ((backReference va).run c).2 ∧
      ((backReference va).run c).2.backReferences ≠ c.backReferences :=
  ⟨⟨⟨hc.indexed, hc.failed, hc.rendered, hc.closed, hc.asked⟩, rfl, Nat.le_succ _, id,
    List.prefix_rfl, id, id⟩, Nat.succ_ne_self _⟩

/-- What is remembered is plain: `reference` remembers a text only if nothing in it was cut. -/
theorem reference_plainUnlessCut (read : Nat → Except Error Descriptor) (room : Nat) :
    PlainUnlessCut read (reference read room) := by
  intro va c hc
  have hsound := hc.remember va
  have hsame := hc.sameTexts_remember va
  have hstep := Step.remember hc va
  cases referenceCase read c room va with
  | known hknown =>
      obtain ⟨text, htext, hrun⟩ := reference_of_known hc room hknown
      rw [hrun]
      exact ⟨hstep, fun _ => ⟨htext, fun hva => hstep.rendered (hknown hva)⟩⟩
  | cut hunnamed hrendered hcut =>
      obtain ⟨hcounted, hne⟩ := backReference_cuts hsound va
      rw [reference_of_cut hc hunnamed hrendered hcut]
      exact ⟨hstep.trans hcounted, fun h => absurd (h.trans hsame.backReferences.symm) hne⟩
  | @written room d hread hd hrendered hprogress =>
      obtain ⟨hliteral, hplain⟩ := literal_plainUnlessCut
        (reference_plainUnlessCut read room) d (hsound.writing (va :: _))
      have hsettled := Step.settle hread hd hliteral hplain fun w =>
        met_literal (reference_plainUnlessCut read room) (reference_looksUp read room)
          (hsound.writing (va :: _))
      rw [reference_of_written hc hread hd hrendered hprogress]
      dsimp only
      refine ⟨hstep.trans hsettled, fun hquiet => ?_⟩
      rw [settle_backReferences, ← hsame.backReferences] at hquiet
      rw [plainReference_of_unnamed hread hd, settle_of_eq hquiet]
      exact ⟨(hplain hquiet).1, fun _ => Std.HashMap.mem_insert_self⟩

end PlainUnlessCut

/-! ## Runs of `declaration` -/

section Declaration

variable {read : Nat → Except Error Descriptor} {c : Catalogue} {va : Nat}

theorem declaration_of_error (hc : Sound read c) {e : Error} (h : read va = .error e) :
    (declaration read va).run c = ("", c.remember read va) := by
  obtain ⟨e', hrun⟩ := lookup_run_error hc h
  unfold declaration
  rw [StateT.run_bind, hrun]
  rfl

theorem declaration_of_named (hc : Sound read c) {d : Descriptor} (h : read va = .ok d)
    (hd : d.isNamed = true) :
    (declaration read va).run c =
      let c := c.remember read va
      let p := ((spelling read (reference read (maxDepth - 1))).definition d).run
        { c with inProgress := va :: c.inProgress }
      ("type " ++ d.name ++ " " ++ p.1, { p.2 with inProgress := p.2.inProgress.erase va }) := by
  unfold declaration
  rw [StateT.run_bind, lookup_run_ok hc h]
  change StateT.run (ite _ _ _) _ = _
  rw [if_pos hd]
  rfl

theorem declaration_of_unnamed (hc : Sound read c) {d : Descriptor} (h : read va = .ok d)
    (hd : d.isNamed = false) :
    (declaration read va).run c = (reference read maxDepth va).run (c.remember read va) := by
  unfold declaration
  rw [StateT.run_bind, lookup_run_ok hc h]
  change StateT.run (ite _ _ _) _ = _
  rw [if_neg (by simp [hd])]

/-- A declaration is put together from plain texts, unless a reference in it was cut short. -/
theorem declaration_plainUnlessCut (hc : Sound read c) (va : Nat) :
    let p := (declaration read va).run c
    Step read c p.2 ∧
      (p.2.backReferences = c.backReferences → plainDeclaration read va = some p.1) := by
  have hsound := hc.remember va
  have hsame := hc.sameTexts_remember va
  have hstep := Step.remember hc va
  unfold plainDeclaration
  cases hread : read va with
  | error e =>
      rw [declaration_of_error hc hread]
      exact ⟨hstep, fun _ => rfl⟩
  | ok d =>
      dsimp only
      cases hd : d.isNamed with
      | true =>
          rw [declaration_of_named hc hread hd]
          obtain ⟨hrun, text, htext, hplain⟩ :=
            (related_writesPlain (reference_plainUnlessCut read (maxDepth - 1)) _).definition
              TextRel.eq _ (hsound.writing (va :: _))
          obtain ⟨harena, hindex, hfailures⟩ := hrun.grows
          refine ⟨hstep.trans ⟨?_, ?_, hrun.backReferences, hrun.rendered, harena, hindex,
            hfailures⟩, fun hquiet => ?_⟩
          · exact hrun.sound.writing _
          · dsimp only
            rw [hrun.inProgress]
            simp
          · rw [if_pos rfl, hplain (hquiet.trans hsame.backReferences.symm), ← htext]
            rfl
      | false =>
          rw [declaration_of_unnamed hc hread hd]
          obtain ⟨hrun, hplain⟩ := reference_plainUnlessCut read maxDepth va _ hsound
          refine ⟨hstep.trans hrun, fun hquiet => ?_⟩
          exact (hplain (hquiet.trans hsame.backReferences.symm)).1

end Declaration

end GoImage.Catalogue
