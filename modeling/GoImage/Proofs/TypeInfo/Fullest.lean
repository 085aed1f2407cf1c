import GoImage.Proofs.TypeInfo.CutFree

/-! # The fullest texts

The fullest text of a type is what any catalogue can come to write: references to types that have
plain texts are written out, however deep they stand, and only the others are cut. A catalogue
writes it as soon as it remembers the types that it would otherwise have no room for. -/

namespace GoImage

/-! ## Definition -/

/-- The text of a reference in which only types without plain texts are cut, with `room` levels
left below the types of a path. -/
noncomputable def fullestReference (read : Nat → Except Error Descriptor) (room : Nat)
    (path : List Nat) (va : Nat) : String :=
  match read va with
  | .error _ => invalidText va
  | .ok d =>
    match plainReference read va, room with
    | some text, _ => text
    | none, 0 => backReferenceText va
    | none, room + 1 =>
      if va ∈ path then backReferenceText va
      else ((directSpelling read (fullestReference read room (va :: path))).literal d).run

/-- The declaration of a type in which only types without plain texts are cut. -/
noncomputable def fullestDeclaration (read : Nat → Except Error Descriptor) (va : Nat) : String :=
  match read va with
  | .error _ => ""
  | .ok d =>
    if d.isNamed then
      "type " ++ d.name ++ " " ++
        ((directSpelling read (fullestReference read (maxDepth - 1) [va])).definition d).run
    else fullestReference read maxDepth [] va

section FullestReference

variable {read : Nat → Except Error Descriptor} {room va : Nat} {path : List Nat}

theorem fullestReference_of_plain {text : String} (h : plainReference read va = some text) :
    fullestReference read room path va = text := by
  unfold fullestReference
  cases hread : read va with
  | error e =>
      rw [plainReference_of_error hread] at h
      exact Option.some.inj h
  | ok d =>
      dsimp only
      rw [h]

theorem fullestReference_of_cut (hva : Unnamed read va) (h : plainReference read va = none)
    (hcut : room = 0 ∨ va ∈ path) : fullestReference read room path va = backReferenceText va := by
  obtain ⟨d, hread, -⟩ := hva
  unfold fullestReference
  rw [hread, h]
  cases room with
  | zero => rfl
  | succ room => exact if_pos (hcut.resolve_left (Nat.succ_ne_zero room))

theorem fullestReference_of_written {d : Descriptor} (hread : read va = .ok d)
    (h : plainReference read va = none) (hpath : va ∉ path) :
    fullestReference read (room + 1) path va =
      ((directSpelling read (fullestReference read room (va :: path))).literal d).run := by
  rw [fullestReference, hread, h]
  exact if_neg hpath

end FullestReference

/-- If the left run ends, the result of the right one is related. -/
def endingIn : RunRel Option Id where
  rel R x y := ∀ a, x = some a → R a y
  pure := by
    rintro _ _ R a b hab _ ⟨⟩
    exact hab
  bind := by
    intro _ _ _ _ R S x y f g hxy hfg c hc
    obtain ⟨a, rfl, hfa⟩ := Option.bind_eq_some_iff.1 hc
    exact hfg a y (hxy a rfl) c hfa

theorem literal_directSpelling {read : Nat → Except Error Descriptor} {f : Nat → Option String}
    {g : Nat → String} (hfg : ∀ va text, f va = some text → g va = text) {d : Descriptor}
    {text : String} (h : (plainSpelling read f).literal d = some text) :
    ((directSpelling read g).literal d).run = text := by
  have hrel : Speller.Related endingIn (· = ·) (shapeAt? read)
      (d.shape.inlineReferences (shapeAt? read)) (plainSpelling read f)
      (directSpelling read g) := by
    constructor
    · rintro va _ ⟨⟩
      exact ⟨rfl, rfl⟩
    · exact fun va _ text htext => (hfg va text htext).symm
  exact (hrel.literal TextRel.eq text h).symm

namespace Catalogue

/-! ## Catalogues that write the fullest text -/

/-- Runs that write given texts from any catalogue with a property. -/
def writesWhile (read : Nat → Except Error Descriptor) (P : Catalogue → Prop)
    (hP : ∀ {c c'}, P c → Step read c c' → P c') : RunRel Cataloguing Id where
  rel R x y := ∀ c, Sound read c → P c → R (x.run c).1 y ∧ Step read c (x.run c).2
  pure hab _ hc _ := ⟨hab, .refl hc⟩
  bind := by
    intro _ _ _ _ R S x y f g hxy hfg c hc hcP
    obtain ⟨hab, hstep⟩ := hxy c hc hcP
    obtain ⟨hab', hstep'⟩ := hfg _ _ hab _ hstep.sound (hP hcP hstep)
    exact ⟨hab', hstep.trans hstep'⟩

section WritesWhile

variable {read : Nat → Except Error Descriptor} {f : Nat → Cataloguing String} {g : Nat → String}
variable {P : Catalogue → Prop} (hP : ∀ {c c'}, P c → Step read c c' → P c')

theorem related_writesWhile (hf : PlainUnlessCut read f) {vas : List Nat}
    (hvas : ∀ va ∈ vas, ∀ c, Sound read c → P c → ((f va).run c).1 = g va) :
    Speller.Related (writesWhile read P hP) (· = ·) (shapeAt? read) vas (spelling read f)
      (directSpelling read g) := by
  constructor
  · intro va c hc _
    have hstep := Step.remember hc va
    rw [show ((spelling read f).shape? va).run c = _ from lookupShape?_run hc va]
    exact ⟨⟨rfl, rfl⟩, hstep⟩
  · exact fun va hva c hc hcP => ⟨hvas va hva c hc hcP, (hf va c hc).1⟩

end WritesWhile

/-- Whether all types with plain texts to which exactly `room` references lead, and for which no
room is left therefore, are remembered. -/
def Provided (read : Nat → Except Error Descriptor) (c : Catalogue) (room va : Nat) : Prop :=
  ∀ w, LeadsIn read room va w → Unnamed read w → ∀ text, plainReference read w = some text →
    w ∈ c.rendered

section Provided

variable {read : Nat → Except Error Descriptor} {c : Catalogue} {room va : Nat}

theorem Provided.of_refers (h : Provided read c (room + 1) va) {w : Nat} (hw : Refers read va w) :
    Provided read c room w :=
  fun target htarget => h target ⟨w, hw, htarget⟩

theorem Provided.step (h : Provided read c room va) {c' : Catalogue} (hstep : Step read c c') :
    Provided read c' room va :=
  fun w hw hunnamed text htext => hstep.rendered (h w hw hunnamed text htext)

/-- A catalogue in which a type is being written and all that there is no room for below it is
remembered. -/
structure ProvidedBelow (read : Nat → Except Error Descriptor) (path : List Nat) (room va : Nat)
    (c : Catalogue) : Prop where
  inProgress : c.inProgress = va :: path
  provided : Provided read c (room + 1) va

theorem ProvidedBelow.step {path : List Nat} {c c' : Catalogue}
    (h : ProvidedBelow read path room va c) (hstep : Step read c c') :
    ProvidedBelow read path room va c' :=
  ⟨hstep.inProgress.trans h.inProgress, h.provided.step hstep⟩

theorem reference_fullest_of_below {path : List Nat} {d : Descriptor} (hread : read va = .ok d)
    (hlead : LeadTo read path va)
    (hfull : ∀ {w c}, Sound read c → LeadTo read c.inProgress w → Provided read c room w →
      ((reference read room w).run c).1 = fullestReference read room c.inProgress w) :
    ∀ w ∈ d.shape.inlineReferences (shapeAt? read), ∀ c, Sound read c →
      ProvidedBelow read path room va c →
      ((reference read room w).run c).1 = fullestReference read room (va :: path) w := by
  intro w hw c hc hbelow
  rw [← hbelow.inProgress]
  by_cases hunnamed : Unnamed read w
  · have href : Refers read va w := ⟨d, hread, hw, hunnamed⟩
    exact hfull hc (hbelow.inProgress ▸ hlead.cons href) (hbelow.provided.of_refers href)
  · obtain ⟨text, htext, hrun⟩ := reference_of_known hc room fun h => absurd h hunnamed
    rw [hrun, fullestReference_of_plain htext]

/-- With all that there is no room for remembered, a reference is written in full. -/
theorem reference_fullest (room : Nat) {va : Nat} {c : Catalogue} (hc : Sound read c)
    (hlead : LeadTo read c.inProgress va) (hprovided : Provided read c room va) :
    ((reference read room va).run c).1 = fullestReference read room c.inProgress va := by
  cases referenceCase read c room va with
  | known hknown =>
      obtain ⟨text, htext, hrun⟩ := reference_of_known hc room hknown
      rw [hrun, fullestReference_of_plain htext]
  | cut hunnamed hrendered hcut =>
      -- A type that is cut here has no plain text.
      have hplain : plainReference read va = none := by
        rw [Option.eq_none_iff_forall_ne_some]
        intro text htext
        rcases hcut with rfl | hva
        · exact hrendered (hprovided va rfl hunnamed text htext)
        · exact acyclic_of_plainReference hunnamed htext va .refl (hlead va hva)
      rw [reference_of_cut hc hunnamed hrendered hcut,
        fullestReference_of_cut hunnamed hplain hcut]
      rfl
  | @written room d hread hd hrendered hprogress =>
      have hsame := hc.sameTexts_remember va
      have hbelow : ProvidedBelow read c.inProgress room va
          { c.remember read va with inProgress := va :: (c.remember read va).inProgress } :=
        ⟨congrArg (va :: ·) hsame.inProgress,
          fun w hw hw' text htext => hsame.rendered ▸ hprovided w hw hw' text htext⟩
      have hrefs := reference_fullest_of_below hread hlead (reference_fullest room)
      have hliteral := ((related_writesWhile (fun h hstep => h.step hstep)
        (reference_plainUnlessCut read room) hrefs).literal TextRel.eq _
        ((hc.remember va).writing _) hbelow).1
      rw [reference_of_written hc hread hd hrendered hprogress]
      dsimp only
      rw [hliteral]
      cases hplain : plainReference read va with
      | none => exact (fullestReference_of_written hread hplain hprogress).symm
      | some text =>
          rw [fullestReference_of_plain hplain]
          rw [plainReference_of_unnamed hread hd] at hplain
          exact literal_directSpelling (fun w t ht => fullestReference_of_plain ht) hplain

/-- With all that there is no room for remembered, a type is declared in full. -/
theorem declaration_fullest (hc : Sound read c) (hprogress : c.inProgress = [])
    (hprovided : Provided read c maxDepth va) :
    ((declaration read va).run c).1 = fullestDeclaration read va := by
  have hsame := hc.sameTexts_remember va
  have hsound := hc.remember va
  have hprogress' : (c.remember read va).inProgress = [] := hsame.inProgress.trans hprogress
  have hprovided' : Provided read (c.remember read va) maxDepth va :=
    hprovided.step (.remember hc va)
  have hlead : LeadTo read [] va := fun u hu => absurd hu List.not_mem_nil
  unfold fullestDeclaration
  cases hread : read va with
  | error e => rw [declaration_of_error hc hread]
  | ok d =>
      dsimp only
      cases hd : d.isNamed with
      | true =>
          have hbelow : ProvidedBelow read [] (maxDepth - 1) va
              { c.remember read va with inProgress := va :: (c.remember read va).inProgress } :=
            ⟨congrArg (va :: ·) hprogress', hprovided'⟩
          have hrefs := reference_fullest_of_below hread hlead (reference_fullest (maxDepth - 1))
          have hdefinition := ((related_writesWhile (fun h hstep => h.step hstep)
            (reference_plainUnlessCut read (maxDepth - 1)) hrefs).definition TextRel.eq _
            (hsound.writing _) hbelow).1
          rw [declaration_of_named hc hread hd, if_pos rfl]
          exact congrArg ("type " ++ d.name ++ " " ++ ·) hdefinition
      | false =>
          rw [declaration_of_unnamed hc hread hd, if_neg Bool.false_ne_true]
          rw [← hprogress'] at hlead ⊢
          exact reference_fullest maxDepth hsound hlead hprovided'

end Provided

end Catalogue
end GoImage
