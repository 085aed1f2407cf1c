import GoImage.Proofs.TypeInfo.CutFree
import GoImage.Proofs.TypeInfo.CutOrder

/-! # Catalogues that remember more

A catalogue that remembers more texts than another one writes no text that says less, and goes on
remembering more. The two runs are followed side by side; where one of them finds a text that the
other one has to write, the other one stays below the types that the first one remembers. -/

namespace GoImage.Catalogue

theorem mem_rendered_settle {c : Catalogue} {before va w : Nat} {text : String} :
    w ∈ (c.settle before va text).rendered ↔
      w ∈ c.rendered ∨ w = va ∧ c.backReferences = before := by
  unfold settle
  dsimp only
  split
  · rename_i hquiet
    rw [Std.HashMap.mem_insert, beq_iff_eq]
    grind
  · rename_i hcut
    simp [hcut]

/-! ## Runs below types with plain texts -/

section StaysWithin

variable {read : Nat → Except Error Descriptor} {K : Nat → Prop}

/-- The left run writes no more than the right one does, and begins to remember nothing but types
with a property. -/
def staysWithin (read : Nat → Except Error Descriptor) (K : Nat → Prop) :
    RunRel Cataloguing Option where
  rel R x y := ∃ b, y = some b ∧ ∀ c, Sound read c →
    R (x.run c).1 b ∧ Step read c (x.run c).2 ∧
      ∀ va ∈ (x.run c).2.rendered, va ∈ c.rendered ∨ K va
  pure hab := ⟨_, rfl, fun _ hc => ⟨hab, .refl hc, fun _ hva => .inl hva⟩⟩
  bind := by
    rintro _ _ _ _ R S x y f g ⟨b, rfl, hx⟩ hfg
    -- The result of `g` is the same for all catalogues from which the left run starts.
    obtain ⟨b', hb', -⟩ := hfg _ b (hx {} (.empty read)).1
    refine ⟨b', hb', fun c hc => ?_⟩
    obtain ⟨hab, hstep, hnew⟩ := hx c hc
    obtain ⟨b'', hb'', hf⟩ := hfg _ b hab
    obtain rfl : b' = b'' := Option.some.inj (hb'.symm.trans hb'')
    obtain ⟨hab', hstep', hnew'⟩ := hf _ hstep.sound
    refine ⟨hab', hstep.trans hstep', fun va hva => ?_⟩
    rcases hnew' va hva with hva | hva
    · exact hnew va hva
    · exact .inr hva

theorem related_staysWithin {f : Nat → Cataloguing String} {vas : List Nat}
    (hf : ∀ va ∈ vas, (staysWithin read K).rel NoFuller (f va) (plainReference read va)) :
    Speller.Related (staysWithin read K) NoFuller (shapeAt? read) vas (spelling read f)
      (plainSpelling read (plainReference read)) := by
  constructor
  · intro va
    refine ⟨_, rfl, fun c hc => ?_⟩
    have hsame := hc.sameTexts_remember va
    rw [show ((spelling read f).shape? va).run c = _ from lookupShape?_run hc va]
    exact ⟨⟨rfl, rfl⟩, .remember hc va, fun w hw => .inl (hsame.rendered ▸ hw)⟩
  · exact hf

/-- Below types that all have plain texts, a reference is written in no more than its plain text,
and only types from there are remembered. -/
theorem staysWithin_reference (hplain : ∀ {va}, K va → ∃ text, plainReference read va = some text)
    (hclosed : ∀ {va w}, K va → Refers read va w → K w) (room : Nat) {va : Nat}
    (hva : Unnamed read va → K va) :
    (staysWithin read K).rel NoFuller (reference read room va) (plainReference read va) := by
  have hexists : ∃ text, plainReference read va = some text := by
    by_cases hunnamed : Unnamed read va
    · exact hplain (hva hunnamed)
    · obtain ⟨text, htext, -⟩ := reference_of_known (.empty read) 0 fun h => absurd h hunnamed
      exact ⟨text, htext⟩
  obtain ⟨text, htext⟩ := hexists
  refine ⟨text, htext, fun c hc => ?_⟩
  have hsame := hc.sameTexts_remember va
  have hold : ∀ w ∈ (c.remember read va).rendered, w ∈ c.rendered ∨ K w :=
    fun w hw => .inl (hsame.rendered ▸ hw)
  suffices h : NoFuller ((reference read room va).run c).1 text ∧
      ∀ w ∈ ((reference read room va).run c).2.rendered, w ∈ c.rendered ∨ K w from
    ⟨h.1, (reference_plainUnlessCut read room va c hc).1, h.2⟩
  cases referenceCase read c room va with
  | known hknown =>
      obtain ⟨text', htext', hrun⟩ := reference_of_known hc room hknown
      obtain rfl : text = text' := Option.some.inj (htext.symm.trans htext')
      rw [hrun]
      exact ⟨.inl rfl, hold⟩
  | cut hunnamed hrendered hcut =>
      rw [reference_of_cut hc hunnamed hrendered hcut]
      exact ⟨noFuller_plainReference hunnamed htext, hold⟩
  | @written room d hread hd hrendered hprogress =>
      have hK := hva ⟨d, hread, hd⟩
      have hrefs : ∀ w ∈ d.shape.inlineReferences (shapeAt? read),
          (staysWithin read K).rel NoFuller (reference read room w) (plainReference read w) :=
        fun w hw => staysWithin_reference hplain hclosed room fun hw' =>
          hclosed hK ⟨d, hread, hw, hw'⟩
      obtain ⟨text', htext', hliteral⟩ := (related_staysWithin hrefs).literal TextRel.noFuller
      rw [plainReference_of_unnamed hread hd] at htext
      obtain rfl : text = text' := Option.some.inj (htext.symm.trans htext')
      obtain ⟨hnoFuller, -, hnew⟩ := hliteral _ ((hc.remember va).writing (va :: _))
      rw [reference_of_written hc hread hd hrendered hprogress]
      refine ⟨hnoFuller, fun w hw => ?_⟩
      rcases mem_rendered_settle.1 hw with hw | ⟨rfl, -⟩
      · rcases hnew w hw with hw | hw
        · exact hold w hw
        · exact .inr hw
      · exact .inr hK

end StaysWithin

/-! ## Two runs side by side -/

/-- Two catalogues in the same state of writing, of which the right one remembers more. -/
structure Fuller (read : Nat → Except Error Descriptor) (c c' : Catalogue) : Prop where
  sound : Sound read c
  sound' : Sound read c'
  inProgress : c'.inProgress = c.inProgress
  rendered : ∀ {va}, va ∈ c.rendered → va ∈ c'.rendered

namespace Fuller

variable {read : Nat → Except Error Descriptor} {c c' : Catalogue}

theorem remember (h : Fuller read c c') (va : Nat) :
    Fuller read (c.remember read va) (c'.remember read va) := by
  have hsame := h.sound.sameTexts_remember va
  have hsame' := h.sound'.sameTexts_remember va
  refine ⟨h.sound.remember va, h.sound'.remember va, ?_, fun hw => ?_⟩
  · rw [hsame.inProgress, hsame'.inProgress, h.inProgress]
  · rw [hsame.rendered] at hw
    rw [hsame'.rendered]
    exact h.rendered hw

theorem writing (h : Fuller read c c') (va : Nat) :
    Fuller read { c with inProgress := va :: c.inProgress }
      { c' with inProgress := va :: c'.inProgress } :=
  ⟨h.sound.writing _, h.sound'.writing _, congrArg (va :: ·) h.inProgress, h.rendered⟩

end Fuller

/-- Two runs of which the right one starts with more texts, writes no less, and ends with more
texts; it cuts nothing short if the left one does not. -/
def sideBySide (read : Nat → Except Error Descriptor) : RunRel Cataloguing Cataloguing where
  rel R x y := ∀ c c', Fuller read c c' →
    R (x.run c).1 (y.run c').1 ∧ Fuller read (x.run c).2 (y.run c').2 ∧
      Step read c (x.run c).2 ∧ Step read c' (y.run c').2 ∧ (Quiet x c → Quiet y c')
  pure hab _ _ h := ⟨hab, h, .refl h.sound, .refl h.sound', fun _ => rfl⟩
  bind := by
    intro _ _ _ _ R S x y f g hxy hfg c c' h
    obtain ⟨hab, h₁, hstep, hstep', hquiet⟩ := hxy c c' h
    obtain ⟨hab₂, h₂, hstep₂, hstep₂', hquiet₂⟩ := hfg _ _ hab _ _ h₁
    refine ⟨hab₂, h₂, hstep.trans hstep₂, hstep'.trans hstep₂', fun hq => ?_⟩
    obtain ⟨hq₁, hq₂⟩ := hstep.quiet_trans hstep₂ hq
    exact (hquiet₂ hq₂).trans (hquiet hq₁)

theorem related_sideBySide {read : Nat → Except Error Descriptor} {f : Nat → Cataloguing String}
    (hf : ∀ va, (sideBySide read).rel NoFuller (f va) (f va)) (vas : List Nat) :
    Speller.Related (sideBySide read) NoFuller (shapeAt? read) vas (spelling read f)
      (spelling read f) := by
  constructor
  · intro va c c' h
    have hsame' := h.sound'.sameTexts_remember va
    unfold Quiet
    rw [show ((spelling read f).shape? va).run c = _ from lookupShape?_run h.sound va,
      show ((spelling read f).shape? va).run c' = _ from lookupShape?_run h.sound' va]
    exact ⟨⟨rfl, rfl⟩, h.remember va, .remember h.sound va, .remember h.sound' va,
      fun _ => hsame'.backReferences⟩
  · exact fun va _ => hf va

theorem sideBySide_reference (read : Nat → Except Error Descriptor) (room va : Nat) :
    (sideBySide read).rel NoFuller (reference read room va) (reference read room va) := by
  intro c c' h
  have hstep := (reference_plainUnlessCut read room va c h.sound).1
  have hstep' := (reference_plainUnlessCut read room va c' h.sound').1
  suffices hruns : NoFuller ((reference read room va).run c).1 ((reference read room va).run c').1 ∧
      (∀ {w}, w ∈ ((reference read room va).run c).2.rendered →
        w ∈ ((reference read room va).run c').2.rendered) ∧
      (Quiet (reference read room va) c → Quiet (reference read room va) c') by
    obtain ⟨htext, hrendered, hquiet⟩ := hruns
    have hprogress := hstep'.inProgress.trans (h.inProgress.trans hstep.inProgress.symm)
    exact ⟨htext, ⟨hstep.sound, hstep'.sound, hprogress, hrendered⟩, hstep, hstep', hquiet⟩
  cases referenceCase read c' room va with
  | known hknown =>
      -- The right run is at its end; the left one stays below the types that are remembered there.
      have hplain : ∀ {w}, w ∈ c'.rendered → ∃ text, plainReference read w = some text := by
        intro w hw
        exact ⟨_, (h.sound'.rendered (Std.HashMap.getElem?_eq_some_getElem hw)).2⟩
      obtain ⟨text, htext, hleft⟩ := staysWithin_reference hplain h.sound'.closed room hknown
      obtain ⟨text', htext', hrun⟩ := reference_of_known h.sound' room hknown
      obtain rfl : text = text' := Option.some.inj (htext.symm.trans htext')
      obtain ⟨hnoFuller, -, hnew⟩ := hleft c h.sound
      refine ⟨?_, fun hw => ?_, fun _ => reference_quiet_of_known h.sound' hknown⟩
      · rw [hrun]
        exact hnoFuller
      · rw [hrun, (h.sound'.sameTexts_remember va).rendered]
        rcases hnew _ hw with hw | hw
        · exact h.rendered hw
        · exact hw
  | cut hunnamed hrendered' hcut' =>
      have hrendered : va ∉ c.rendered := fun hva => hrendered' (h.rendered hva)
      have hcut : room = 0 ∨ va ∈ c.inProgress := h.inProgress ▸ hcut'
      have hne := (backReference_cuts (h.sound.remember va) va).2
      have hsame := h.sound.sameTexts_remember va
      unfold Quiet
      rw [reference_of_cut h.sound hunnamed hrendered hcut,
        reference_of_cut h.sound' hunnamed hrendered' hcut']
      refine ⟨.inl rfl, (h.remember va).rendered, fun hquiet => ?_⟩
      exact absurd (hquiet.trans hsame.backReferences.symm) hne
  | @written room d hread hd hrendered' hprogress' =>
      have hrendered : va ∉ c.rendered := fun hva => hrendered' (h.rendered hva)
      have hprogress : va ∉ c.inProgress := h.inProgress ▸ hprogress'
      have hrefs := fun w => sideBySide_reference read room w
      have hsame := h.sound.sameTexts_remember va
      have hsame' := h.sound'.sameTexts_remember va
      obtain ⟨htext, hfuller, -, -, hquiet⟩ := (related_sideBySide hrefs _).literal
        TextRel.noFuller (d := d) _ _ ((h.remember va).writing va)
      unfold Quiet at hquiet ⊢
      rw [reference_of_written h.sound hread hd hrendered hprogress,
        reference_of_written h.sound' hread hd hrendered' hprogress']
      refine ⟨htext, fun hw => ?_, fun hq => ?_⟩
      · rcases mem_rendered_settle.1 hw with hw | ⟨rfl, hq⟩
        · exact mem_rendered_settle.2 (.inl (hfuller.rendered hw))
        · exact mem_rendered_settle.2 (.inr ⟨rfl, hquiet hq⟩)
      · dsimp only at hq ⊢
        rw [settle_backReferences] at hq ⊢
        exact (hquiet (hq.trans hsame.backReferences.symm)).trans hsame'.backReferences

/-- A catalogue that remembers more declares no type in less. -/
theorem Fuller.noFuller_declaration {read : Nat → Except Error Descriptor} {c c' : Catalogue}
    (h : Fuller read c c') (va : Nat) :
    NoFuller ((declaration read va).run c).1 ((declaration read va).run c').1 := by
  cases hread : read va with
  | error e =>
      rw [declaration_of_error h.sound hread, declaration_of_error h.sound' hread]
      exact .inl rfl
  | ok d =>
      cases hd : d.isNamed with
      | true =>
          rw [declaration_of_named h.sound hread hd, declaration_of_named h.sound' hread hd]
          have hrefs := sideBySide_reference read (maxDepth - 1)
          have htext := ((related_sideBySide hrefs _).definition TextRel.noFuller (d := d) _ _
            ((h.remember va).writing va)).1
          exact TextRel.noFuller.append_left _ htext
      | false =>
          rw [declaration_of_unnamed h.sound hread hd, declaration_of_unnamed h.sound' hread hd]
          exact (sideBySide_reference read maxDepth va _ _ (h.remember va)).1

/-- A catalogue that remembers more still does so after a declaration by both. -/
theorem Fuller.declaration {read : Nat → Except Error Descriptor} {c c' : Catalogue}
    (h : Fuller read c c') (va : Nat) :
    Fuller read ((Catalogue.declaration read va).run c).2
      ((Catalogue.declaration read va).run c').2 := by
  cases hread : read va with
  | error e =>
      rw [declaration_of_error h.sound hread, declaration_of_error h.sound' hread]
      exact h.remember va
  | ok d =>
      cases hd : d.isNamed with
      | true =>
          rw [declaration_of_named h.sound hread hd, declaration_of_named h.sound' hread hd]
          have hrefs := sideBySide_reference read (maxDepth - 1)
          have hrun := ((related_sideBySide hrefs _).definition TextRel.noFuller (d := d) _ _
            ((h.remember va).writing va)).2.1
          exact ⟨hrun.sound.writing _, hrun.sound'.writing _, congrArg (·.erase va) hrun.inProgress,
            hrun.rendered⟩
      | false =>
          rw [declaration_of_unnamed h.sound hread hd, declaration_of_unnamed h.sound' hread hd]
          exact (sideBySide_reference read maxDepth va _ _ (h.remember va)).2.1

end GoImage.Catalogue
