import GoImage.Proofs.TypeInfo.RenderCache

/-! # Runs that cut nothing short

A reference is cut short only at a type that is being written already, or where there is no room
left. Neither happens below a type from which all chains of references are short. -/

namespace GoImage.Catalogue

/-- Whether a run cuts no reference short. -/
def Quiet {α : Type} (x : Cataloguing α) (c : Catalogue) : Prop :=
  (x.run c).2.backReferences = c.backReferences

/-- Runs that cut nothing short from any catalogue with a property. -/
def quietWhile (read : Nat → Except Error Descriptor) (P : Catalogue → Prop)
    (hP : ∀ {c c'}, P c → Step read c c' → P c') : RunRel Cataloguing Id where
  rel R x y := ∀ c, Sound read c → P c → R (x.run c).1 y ∧ Step read c (x.run c).2 ∧ Quiet x c
  pure hab _ hc _ := ⟨hab, .refl hc, rfl⟩
  bind := by
    intro _ _ _ _ R S x y f g hxy hfg c hc hcP
    obtain ⟨hab, hstep, hquiet⟩ := hxy c hc hcP
    obtain ⟨hab', hstep', hquiet'⟩ := hfg _ _ hab _ hstep.sound (hP hcP hstep)
    exact ⟨hab', hstep.trans hstep', hquiet'.trans hquiet⟩

section Quiet

variable {read : Nat → Except Error Descriptor} {f : Nat → Cataloguing String}
variable {P : Catalogue → Prop} (hP : ∀ {c c'}, P c → Step read c c' → P c')

theorem related_quietWhile (hf : PlainUnlessCut read f) {vas : List Nat}
    (hvas : ∀ va ∈ vas, ∀ c, Sound read c → P c → Quiet (f va) c) :
    Speller.Related (quietWhile read P hP) (fun _ _ => True) (shapeAt? read) vas (spelling read f)
      (directSpelling read fun _ => "") := by
  constructor
  · intro va c hc _
    have hstep := Step.remember hc va
    unfold Quiet
    rw [show ((spelling read f).shape? va).run c = _ from lookupShape?_run hc va]
    exact ⟨⟨rfl, rfl⟩, hstep, (hc.sameTexts_remember va).backReferences⟩
  · intro va hva c hc hcP
    exact ⟨trivial, (hf va c hc).1, hvas va hva c hc hcP⟩

include hP

theorem literal_quiet (hf : PlainUnlessCut read f) {d : Descriptor}
    (hrefs : ∀ va ∈ d.shape.inlineReferences (shapeAt? read), ∀ c, Sound read c → P c →
      Quiet (f va) c) {c : Catalogue} (hc : Sound read c) (hcP : P c) :
    Quiet ((spelling read f).literal d) c :=
  ((related_quietWhile hP hf hrefs).literal ⟨fun _ => trivial, fun _ _ => trivial⟩ c hc hcP).2.2

theorem definition_quiet (hf : PlainUnlessCut read f) {d : Descriptor}
    (hrefs : ∀ va ∈ d.shape.inlineReferences (shapeAt? read), ∀ c, Sound read c → P c →
      Quiet (f va) c) {c : Catalogue} (hc : Sound read c) (hcP : P c) :
    Quiet ((spelling read f).definition d) c :=
  ((related_quietWhile hP hf hrefs).definition ⟨fun _ => trivial, fun _ _ => trivial⟩ c hc hcP).2.2

end Quiet

/-! ## References that are not cut -/

section Reference

variable {read : Nat → Except Error Descriptor} {c : Catalogue} {room va : Nat}

/-- A reference to what is not a type without a name, or is remembered, is never cut. -/
theorem reference_quiet_of_known (hc : Sound read c) (hva : Unnamed read va → va ∈ c.rendered) :
    Quiet (reference read room va) c := by
  obtain ⟨text, -, hrun⟩ := reference_of_known hc room hva
  unfold Quiet
  rw [hrun]
  exact (hc.sameTexts_remember va).backReferences

/-- With room left, a type that is not being written is cut nowhere if its literal is cut
nowhere. -/
theorem reference_quiet_of_literal (hc : Sound read c) {d : Descriptor} (hread : read va = .ok d)
    (hd : d.isNamed = false) (hva : va ∉ c.inProgress)
    (hliteral : ∀ c', Sound read c' → c'.inProgress = va :: c.inProgress →
      c'.rendered = c.rendered → Quiet ((spelling read (reference read room)).literal d) c') :
    Quiet (reference read (room + 1) va) c := by
  have hsame := hc.sameTexts_remember va
  by_cases hrendered : va ∈ c.rendered
  · exact reference_quiet_of_known hc fun _ => hrendered
  · unfold Quiet
    rw [reference_of_written hc hread hd hrendered hva]
    dsimp only
    rw [settle_backReferences]
    have hquiet := hliteral _ ((hc.remember va).writing _) (congrArg (va :: ·) hsame.inProgress)
      hsame.rendered
    exact hquiet.trans hsame.backReferences

/-- A type is not cut if all that it refers to is remembered. -/
theorem reference_quiet_of_refers (hc : Sound read c) (room : Nat) (hva : va ∉ c.inProgress)
    (hrefs : ∀ {w}, Refers read va w → w ∈ c.rendered) :
    Quiet (reference read (room + 1) va) c := by
  by_cases hunnamed : Unnamed read va
  · obtain ⟨d, hread, hd⟩ := hunnamed
    refine reference_quiet_of_literal hc hread hd hva fun c' hc' _ hrendered => ?_
    -- Finishing other types never forgets a text.
    refine literal_quiet (P := fun c'' => ∀ {w}, Refers read va w → w ∈ c''.rendered)
      (fun h hstep _ hw => hstep.rendered (h hw)) (reference_plainUnlessCut read room) ?_ hc'
      (fun hw => hrendered ▸ hrefs hw)
    intro w hw c'' hc'' hremembered
    by_cases hw' : Unnamed read w
    · exact reference_quiet_of_known hc'' fun _ => hremembered ⟨d, hread, hw, hw'⟩
    · exact reference_quiet_of_known hc'' fun hva => absurd hva hw'
  · exact reference_quiet_of_known hc fun hva => absurd hva hunnamed

end Reference

/-! ## Short chains of references -/

/-- Exactly so many references, each to a type without a name, lead from one type to another. -/
def LeadsIn (read : Nat → Except Error Descriptor) : Nat → Nat → Nat → Prop
  | 0, va, target => va = target
  | n + 1, va, target => ∃ w, Refers read va w ∧ LeadsIn read n w target

theorem exists_leadsIn_of_transGen {read : Nat → Except Error Descriptor} {va : Nat}
    (h : Relation.TransGen (Refers read) va va) (n : Nat) : ∃ w, LeadsIn read n va w := by
  induction n generalizing va with
  | zero => exact ⟨va, rfl⟩
  | succ n ih =>
      obtain ⟨w, hw, hback⟩ := Relation.TransGen.head'_iff.1 h
      obtain ⟨target, htarget⟩ := ih (Relation.TransGen.tail' hback hw)
      exact ⟨target, w, hw, htarget⟩

/-- All chains of references from an address to types without a name have fewer than `bound`
links. -/
def ChainsBelow (read : Nat → Except Error Descriptor) (bound va : Nat) : Prop :=
  ∀ n w, LeadsIn read n va w → n < bound

section ChainsBelow

variable {read : Nat → Except Error Descriptor} {bound va : Nat}

theorem ChainsBelow.pos (h : ChainsBelow read bound va) : 0 < bound :=
  h 0 va rfl

theorem ChainsBelow.of_refers (h : ChainsBelow read (bound + 1) va) {w : Nat}
    (hw : Refers read va w) : ChainsBelow read bound w := fun n target htarget =>
  Nat.lt_of_succ_lt_succ (h (n + 1) target ⟨w, hw, htarget⟩)

theorem ChainsBelow.not_transGen (h : ChainsBelow read bound va) :
    ¬ Relation.TransGen (Refers read) va va := by
  intro hcycle
  obtain ⟨w, hw⟩ := exists_leadsIn_of_transGen hcycle bound
  exact Nat.lt_irrefl bound (h bound w hw)

/-- Every type that is being written leads to the address. -/
def LeadTo (read : Nat → Except Error Descriptor) (vas : List Nat) (va : Nat) : Prop :=
  ∀ u ∈ vas, Relation.TransGen (Refers read) u va

theorem LeadTo.cons {vas : List Nat} (h : LeadTo read vas va) {w : Nat} (hw : Refers read va w) :
    LeadTo read (va :: vas) w := by
  intro u hu
  rcases List.mem_cons.1 hu with rfl | hu
  · exact .single hw
  · exact (h u hu).tail hw

/-- Where all chains fit into the room that is left, nothing is cut. -/
theorem reference_quiet_of_chainsBelow {room : Nat} {c : Catalogue} (hc : Sound read c)
    (hchains : ChainsBelow read room va) (hlead : LeadTo read c.inProgress va) :
    Quiet (reference read room va) c := by
  induction room generalizing va c with
  | zero => exact absurd hchains.pos (Nat.lt_irrefl 0)
  | succ room ih =>
      by_cases hunnamed : Unnamed read va
      · obtain ⟨d, hread, hd⟩ := hunnamed
        have hva : va ∉ c.inProgress := fun hva => hchains.not_transGen (hlead va hva)
        refine reference_quiet_of_literal hc hread hd hva fun c' hc' hprogress _ => ?_
        refine literal_quiet (P := fun c'' => c''.inProgress = va :: c.inProgress)
          (fun h hstep => hstep.inProgress.trans h) (reference_plainUnlessCut read room) ?_ hc'
          hprogress
        intro w hw c'' hc'' hprogress
        by_cases hw' : Unnamed read w
        · have href : Refers read va w := ⟨d, hread, hw, hw'⟩
          exact ih hc'' (hchains.of_refers href) (hprogress ▸ hlead.cons href)
        · exact reference_quiet_of_known hc'' fun hva => absurd hva hw'
      · exact reference_quiet_of_known hc fun hva => absurd hva hunnamed

/-- A declaration from which all chains are shorter than the depth limit cuts nothing. -/
theorem declaration_quiet_of_chainsBelow {c : Catalogue} (hc : Sound read c)
    (hprogress : c.inProgress = []) (hchains : ChainsBelow read maxDepth va) :
    Quiet (declaration read va) c := by
  have hsound := hc.remember va
  have hsame := hc.sameTexts_remember va
  have hprogress' : (c.remember read va).inProgress = [] := hsame.inProgress.trans hprogress
  unfold Quiet
  cases hread : read va with
  | error e =>
      rw [declaration_of_error hc hread]
      exact hsame.backReferences
  | ok d =>
      cases hd : d.isNamed with
      | false =>
          rw [declaration_of_unnamed hc hread hd]
          have hlead : LeadTo read (c.remember read va).inProgress va := by
            rw [hprogress']
            exact fun u hu => absurd hu List.not_mem_nil
          exact (reference_quiet_of_chainsBelow hsound hchains hlead).trans hsame.backReferences
      | true =>
          rw [declaration_of_named hc hread hd]
          have hquiet := definition_quiet (P := fun c' => c'.inProgress = [va])
            (fun h hstep => hstep.inProgress.trans h)
            (reference_plainUnlessCut read (maxDepth - 1)) (d := d) (fun w hw c' hc' hva => ?_)
            (hsound.writing [va]) rfl
          · dsimp only
            rw [hprogress']
            exact hquiet.trans hsame.backReferences
          · by_cases hw' : Unnamed read w
            · have href : Refers read va w := ⟨d, hread, hw, hw'⟩
              refine reference_quiet_of_chainsBelow hc' (hchains.of_refers href) ?_
              rw [hva]
              exact LeadTo.cons (fun u hu => absurd hu List.not_mem_nil) href
            · exact reference_quiet_of_known hc' fun hva => absurd hva hw'

end ChainsBelow

end GoImage.Catalogue
