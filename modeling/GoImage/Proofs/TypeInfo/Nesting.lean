import GoImage.Proofs.TypeInfo.CutFree
import GoImage.Proofs.TypeInfo.PartTexts

/-! # What stands inside a type as it is written

While a type is written, it refers to other types, and some of these are written out inside of it.
The writing of a type keeps how its text came about: which texts were known already, which
references were cut short, and what was written out inside of what. -/

namespace GoImage

/-- How the text of a type came about. -/
inductive Writing
  /-- A text that needed no writing: a name, a text that is remembered, or the text that stands for
  a type that cannot be read. -/
  | known (va : Nat) (text : String)
  /-- A reference that is cut short. -/
  | cut (va : Nat)
  /-- A type that is written out, with the references in its text. -/
  | written (va : Nat) (text : String) (parts : List Writing)

namespace Writing

def text : Writing → String
  | known _ text | written _ text _ => text
  | cut va => backReferenceText va

/-- The addresses in references that are cut short, in order. -/
def cuts : Writing → List Nat
  | known _ _ => []
  | cut va => [va]
  | written _ _ parts => parts.flatMap cuts

/-- One writing stands in another one, inside of the types of a path, innermost first. -/
inductive StandsIn (part : Writing) : List Nat → Writing → Prop
  | self : StandsIn part [] part
  | inside {va : Nat} {text : String} {parts : List Writing} {next : Writing} {path : List Nat}
    (hnext : next ∈ parts) (h : StandsIn part path next) :
    StandsIn part (path ++ [va]) (written va text parts)

end Writing

namespace Catalogue

/-! ## The references that a type makes -/

/-- A reference, with what is remembered when it is made. -/
structure Call where
  va : Nat
  catalogue : Catalogue

/-- What the reference comes to. -/
def Call.run (call : Call) (f : Nat → Cataloguing String) : String × Catalogue :=
  (f call.va).run call.catalogue

abbrev Logging := StateT (List Call) Cataloguing

/-- Spells like `spelling`, and logs every reference. -/
def logging (read : Nat → Except Error Descriptor) (reference : Nat → Cataloguing String) :
    Speller Logging :=
  { reference := fun va => do
      let c ← getThe Catalogue
      modify (· ++ [⟨va, c⟩])
      reference va
    shape? := fun va => lookupShape? read va }

/-- The references that a run makes. -/
def calls {α : Type} (x : Logging α) (c : Catalogue) : List Call :=
  ((x.run []).run c).1.2

section Logging

variable (read : Nat → Except Error Descriptor)

/-- The right run is the left one without its log. A list for each reference, as long as the
reference cuts others short, adds up to what the run cuts short. -/
def erasing (cutsIn : Call → List Nat) : RunRel Logging Cataloguing where
  rel R x y := ∀ l c, Sound read c →
    let p := (x.run l).run c
    R p.1.1 (y.run c).1 ∧ p.2 = (y.run c).2 ∧ Sound read p.2 ∧
      p.2.backReferences + (l.flatMap cutsIn).length =
        c.backReferences + (p.1.2.flatMap cutsIn).length
  pure hab _ _ hc := ⟨hab, rfl, hc, rfl⟩
  bind := by
    intro _ _ _ _ R S x y f g hxy hfg l c hc
    obtain ⟨hab, hc₁, hsound, hcount⟩ := hxy l c hc
    obtain ⟨hab', hc₂, hsound', hcount'⟩ := hfg _ _ hab ((x.run l).run c).1.2 _ hsound
    have hright : (y >>= g).run c = (g (y.run c).1).run ((x.run l).run c).2 := by
      rw [hc₁]
      rfl
    rw [hright]
    refine ⟨hab', hc₂, hsound', ?_⟩
    have hsum : ∀ {a b d u v w : Nat}, b + u = a + v → d + v = b + w → d + u = a + w := by
      omega
    exact hsum hcount hcount'

/-- The left run logs the addresses that the right one notes, each with a catalogue that it comes
to. -/
def logsNoted : RunRel Logging (StateM (List Nat)) where
  rel R x y := ∀ l c, Sound read c →
    let p := (x.run l).run c
    let q := y.run (l.map (·.va))
    R p.1.1 q.1 ∧ p.1.2.map (·.va) = q.2 ∧ Step read c p.2 ∧
      ∀ call ∈ p.1.2, call ∈ l ∨ Step read c call.catalogue
  pure hab _ _ hc := ⟨hab, rfl, .refl hc, fun _ hcall => .inl hcall⟩
  bind := by
    intro _ _ _ _ R S x y f g hxy hfg l c hc
    obtain ⟨hab, hnoted, hstep, hlog⟩ := hxy l c hc
    have hrest := hfg _ _ hab ((x.run l).run c).1.2 _ hstep.sound
    rw [hnoted] at hrest
    obtain ⟨hab', hnoted', hstep', hlog'⟩ := hrest
    refine ⟨hab', hnoted', hstep.trans hstep', fun call hcall => ?_⟩
    rcases hlog' call hcall with hcall | hcall
    · exact hlog call hcall
    · exact .inr (hstep.trans hcall)

/-- The right run makes of the texts of the logged references what the left one makes of the
references. -/
def replays (textOf : Call → String) : RunRel Logging (StateM (List String)) where
  rel R x y := ∀ l c, Sound read c →
    let p := (x.run l).run c
    ∃ new, p.1.2 = l ++ new ∧ Sound read p.2 ∧
      ∃ b, R p.1.1 b ∧ ∀ rest, y.run (new.map textOf ++ rest) = (b, rest)
  pure hab l _ hc := ⟨[], (List.append_nil l).symm, hc, _, hab, fun _ => rfl⟩
  bind := by
    intro _ _ _ _ R S x y f g hxy hfg l c hc
    obtain ⟨new, hlog, hc₁, b, hab, hrun⟩ := hxy l c hc
    obtain ⟨new', hlog', hc₂, b', hab', hrun'⟩ := hfg _ b hab ((x.run l).run c).1.2 _ hc₁
    refine ⟨new ++ new', ?_, hc₂, b', hab', fun rest => ?_⟩
    · rw [← List.append_assoc, ← hlog]
      exact hlog'
    · rw [List.map_append, List.append_assoc, StateT.run_bind, hrun]
      exact hrun' rest

variable {read}

/-- The lists are as long as references cut others short. -/
def CountsCuts (read : Nat → Except Error Descriptor) (f : Nat → Cataloguing String)
    (cutsIn : Call → List Nat) : Prop :=
  ∀ call, Sound read call.catalogue →
    (call.run f).2.backReferences = call.catalogue.backReferences + (cutsIn call).length

theorem exists_countsCuts {f : Nat → Cataloguing String} (hf : PlainUnlessCut read f) :
    ∃ cutsIn, CountsCuts read f cutsIn := by
  refine ⟨fun call => List.replicate
    ((call.run f).2.backReferences - call.catalogue.backReferences) call.va, fun call hcall => ?_⟩
  have hle : call.catalogue.backReferences ≤ (call.run f).2.backReferences :=
    (hf call.va call.catalogue hcall).1.backReferences
  rw [List.length_replicate, Nat.add_sub_cancel' hle]

theorem logging_shape?_run {f : Nat → Cataloguing String} {c : Catalogue} (hc : Sound read c)
    (va : Nat) (l : List Call) :
    (((logging read f).shape? va).run l).run c = ((shapeAt? read va, l), c.remember read va) := by
  change (lookupShape? read va >>= fun a => pure (a, l)).run c = _
  rw [StateT.run_bind, lookupShape?_run hc va]
  rfl

theorem related_erasing {f : Nat → Cataloguing String} (hf : PlainUnlessCut read f)
    {cutsIn : Call → List Nat} (hcount : CountsCuts read f cutsIn) (vas : List Nat) :
    Speller.Related (erasing read cutsIn) (· = ·) (shapeAt? read) vas (logging read f)
      (spelling read f) := by
  constructor
  · intro va l c hc
    rw [logging_shape?_run hc, show ((spelling read f).shape? va).run c = _ from
      lookupShape?_run hc va]
    have hsame := hc.sameTexts_remember va
    exact ⟨⟨rfl, rfl⟩, rfl, hc.remember va, congrArg (· + _) hsame.backReferences⟩
  · intro va _ l c hc
    have hcall := hcount ⟨va, c⟩ hc
    dsimp only at hcall
    refine ⟨rfl, rfl, (hf va c hc).1.sound, ?_⟩
    change (Call.run ⟨va, c⟩ f).2.backReferences + _ =
      _ + ((l ++ [Call.mk va c]).flatMap cutsIn).length
    rw [List.flatMap_append, List.length_append, hcall, List.flatMap_singleton]
    omega

theorem related_logsNoted {f : Nat → Cataloguing String} (hf : PlainUnlessCut read f)
    (vas : List Nat) :
    Speller.Related (logsNoted read) (fun _ _ => True) (shapeAt? read) vas (logging read f)
      (noting (shapeAt? read)) := by
  constructor
  · intro va l c hc
    have hstep := Step.remember hc va
    rw [logging_shape?_run hc]
    exact ⟨⟨rfl, rfl⟩, rfl, hstep, fun _ hcall => .inl hcall⟩
  · intro va _ l c hc
    refine ⟨trivial, List.map_append, (hf va c hc).1, fun call hcall => ?_⟩
    rcases List.mem_append.1 hcall with hcall | hcall
    · exact .inl hcall
    · rw [List.mem_singleton.1 hcall]
      exact .inr (.refl hc)

theorem related_replays {f : Nat → Cataloguing String} (hf : PlainUnlessCut read f)
    (vas : List Nat) :
    Speller.Related (replays read fun call => (call.run f).1) (· = ·)
      (shapeAt? read) vas (logging read f) (replaying (shapeAt? read)) := by
  constructor
  · intro va l c hc
    rw [logging_shape?_run hc]
    exact ⟨[], (List.append_nil l).symm, hc.remember va, _, ⟨rfl, rfl⟩, fun _ => rfl⟩
  · intro va _ l c hc
    exact ⟨[⟨va, c⟩], rfl, (hf va c hc).1.sound, _, rfl, fun _ => rfl⟩

/-- What the references of a run have to do with its text. -/
structure Makes (read : Nat → Except Error Descriptor) (f : Nat → Cataloguing String)
    (vas : List Nat) (c : Catalogue) (x : Logging String) (y : Cataloguing String) : Prop where
  addresses : (calls x c).map (·.va) = vas
  steps : ∀ call ∈ calls x c, Step read c call.catalogue
  within : ∀ call ∈ calls x c, Within (call.run f).1 (y.run c).1
  counted : ∀ {cutsIn}, CountsCuts read f cutsIn →
    (y.run c).2.backReferences = c.backReferences + ((calls x c).flatMap cutsIn).length

theorem Makes.of_related {f : Nat → Cataloguing String} (hf : PlainUnlessCut read f)
    {vas : List Nat} {c : Catalogue} (hc : Sound read c) {x : Logging String}
    {y : Cataloguing String} {z : StateM (List Nat) String} {w : StateM (List String) String}
    (herased : ∀ {cutsIn}, CountsCuts read f cutsIn → (erasing read cutsIn).rel (· = ·) x y)
    (hnoted : (logsNoted read).rel (fun _ _ => True) x z) (hvas : (z.run []).2 = vas)
    (hreplayed : (replays read fun call => (call.run f).1).rel (· = ·) x w)
    (huses : Uses Within vas w) : Makes read f vas c x y := by
  obtain ⟨-, hnotes, -, hlog⟩ := hnoted [] c hc
  have haddresses : (calls x c).map (·.va) = vas := hnotes.trans hvas
  refine ⟨haddresses, fun call hcall => ?_, fun call hcall => ?_, fun hcount => ?_⟩
  · exact (hlog call hcall).resolve_left List.not_mem_nil
  · obtain ⟨cutsIn, hcount⟩ := exists_countsCuts hf
    obtain ⟨htext, -⟩ := herased hcount [] c hc
    obtain ⟨new, hnew, -, b, hb, hreplay⟩ := hreplayed [] c hc
    obtain rfl : calls x c = new := hnew
    have hlength : ((calls x c).map fun call => (call.run f).1).length = vas.length := by
      rw [← haddresses, List.length_map, List.length_map]
    -- Fed with the texts of the references, the replaying run makes the text of the real one.
    obtain ⟨text, hrun, hshows⟩ := huses _ [] hlength
    have hsame : b = text := congrArg Prod.fst ((hreplay []).symm.trans hrun)
    rw [← htext, hb, hsame]
    exact hshows _ (List.mem_map_of_mem hcall)
  · obtain ⟨-, hrun, -, hcounted⟩ := herased hcount [] c hc
    rw [← hrun]
    exact hcounted

variable {f : Nat → Cataloguing String} (hf : PlainUnlessCut read f) (d : Descriptor)
variable {c : Catalogue} (hc : Sound read c)
include hf hc

theorem makes_literal :
    Makes read f (d.shape.inlineReferences (shapeAt? read)) c ((logging read f).literal d)
      ((spelling read f).literal d) :=
  .of_related hf hc (fun hcount => (related_erasing hf hcount _).literal TextRel.eq)
    ((related_logsNoted hf _).literal ⟨fun _ => trivial, fun _ _ => trivial⟩)
    (noting_literal (shapeAt? read) d []) ((related_replays hf _).literal TextRel.eq)
    (uses_literal (shapeAt? read) d)

theorem makes_definition :
    Makes read f (d.shape.inlineReferences (shapeAt? read)) c ((logging read f).definition d)
      ((spelling read f).definition d) :=
  .of_related hf hc (fun hcount => (related_erasing hf hcount _).definition TextRel.eq)
    ((related_logsNoted hf _).definition ⟨fun _ => trivial, fun _ _ => trivial⟩)
    (noting_definition (shapeAt? read) d []) ((related_replays hf _).definition TextRel.eq)
    (uses_definition (shapeAt? read) d)

end Logging

/-! ## Writings -/

variable (read : Nat → Except Error Descriptor)

/-- The descriptor of a type whose text is not known: it has no name, and no text is remembered. -/
def unwritten? (c : Catalogue) (va : Nat) : Option Descriptor :=
  (read va).toOption.filter fun d => !d.isNamed && !c.rendered.contains va

/-- How a reference comes about that is made with so much room. -/
def referenceWriting : (room va : Nat) → Catalogue → Writing
  | 0, va, c =>
    match unwritten? read c va with
    | none => .known va ((reference read 0 va).run c).1
    | some _ => .cut va
  | room + 1, va, c =>
    match unwritten? read c va with
    | none => .known va ((reference read (room + 1) va).run c).1
    | some d =>
      if va ∈ c.inProgress then .cut va
      else
        let text := ((reference read (room + 1) va).run c).1
        let c := c.remember read va
        let parts := calls ((logging read (reference read room)).literal d)
          { c with inProgress := va :: c.inProgress }
        .written va text (parts.map fun call => referenceWriting room call.va call.catalogue)

/-- How the declaration of a type comes about. -/
def declarationWriting (va : Nat) (c : Catalogue) : Writing :=
  let text := ((declaration read va).run c).1
  match read va with
  | .error _ => .known va text
  | .ok d =>
    let c := c.remember read va
    if d.isNamed then
      let parts := calls ((logging read (reference read (maxDepth - 1))).definition d)
        { c with inProgress := va :: c.inProgress }
      .written va text (parts.map fun call =>
        referenceWriting read (maxDepth - 1) call.va call.catalogue)
    else referenceWriting read maxDepth va c

section Writing

variable {read} {c : Catalogue} {room va : Nat}

theorem unwritten?_eq_some {d : Descriptor} :
    unwritten? read c va = some d ↔ read va = .ok d ∧ d.isNamed = false ∧ va ∉ c.rendered := by
  unfold unwritten?
  cases read va with
  | error e => simp [Except.toOption]
  | ok d' =>
      simp only [Except.toOption, Option.filter_eq_some_iff, Option.some.injEq, Except.ok.injEq,
        Bool.and_eq_true, Bool.not_eq_true', Std.HashMap.contains_eq_false_iff_not_mem]

theorem unwritten?_eq_none :
    unwritten? read c va = none ↔ (Unnamed read va → va ∈ c.rendered) := by
  rw [Option.eq_none_iff_forall_not_mem]
  constructor
  · rintro h ⟨d, hread, hd⟩
    by_contra hva
    exact h d (unwritten?_eq_some.2 ⟨hread, hd, hva⟩)
  · intro h d hd
    obtain ⟨hread, hd, hva⟩ := unwritten?_eq_some.1 hd
    exact hva (h ⟨d, hread, hd⟩)

/-- Writings are those of references that a run makes to addresses; it writes the text and ends
with the catalogue of a pair. -/
structure ArePartsOf (read : Nat → Except Error Descriptor) (room : Nat) (vas : List Nat)
    (c : Catalogue) (p : String × Catalogue) (parts : List Writing) : Prop where
  exists_of_mem : ∀ part ∈ parts, ∃ va c', Step read c c' ∧ part = referenceWriting read room va c'
  exists_mem : ∀ va ∈ vas, ∃ c', Step read c c' ∧ referenceWriting read room va c' ∈ parts
  within : ∀ part ∈ parts, Within part.text p.1
  counted : p.2.backReferences = c.backReferences + (parts.flatMap Writing.cuts).length

theorem referenceWriting_of_known (hva : Unnamed read va → va ∈ c.rendered) :
    referenceWriting read room va c = .known va ((reference read room va).run c).1 := by
  have hnone := unwritten?_eq_none.2 hva
  cases room <;> rw [referenceWriting, hnone]

theorem referenceWriting_of_cut (hunnamed : Unnamed read va) (hva : va ∉ c.rendered)
    (hcut : room = 0 ∨ va ∈ c.inProgress) : referenceWriting read room va c = .cut va := by
  obtain ⟨d, hread, hd⟩ := hunnamed
  have hsome := unwritten?_eq_some.2 ⟨hread, hd, hva⟩
  cases room with
  | zero => rw [referenceWriting, hsome]
  | succ room =>
      rw [referenceWriting, hsome]
      exact if_pos (hcut.resolve_left (Nat.succ_ne_zero room))

theorem referenceWriting_of_written {d : Descriptor} (hread : read va = .ok d)
    (hd : d.isNamed = false) (hva : va ∉ c.rendered) (hprogress : va ∉ c.inProgress) :
    referenceWriting read (room + 1) va c =
      .written va ((reference read (room + 1) va).run c).1
        ((calls ((logging read (reference read room)).literal d)
          { c.remember read va with inProgress := va :: (c.remember read va).inProgress }).map
            fun call => referenceWriting read room call.va call.catalogue) := by
  rw [referenceWriting, unwritten?_eq_some.2 ⟨hread, hd, hva⟩]
  exact if_neg hprogress

theorem text_referenceWriting (hc : Sound read c) (room va : Nat) :
    (referenceWriting read room va c).text = ((reference read room va).run c).1 := by
  cases referenceCase read c room va with
  | known hknown => rw [referenceWriting_of_known hknown]; rfl
  | cut hunnamed hrendered hcut =>
      rw [referenceWriting_of_cut hunnamed hrendered hcut,
        reference_of_cut hc hunnamed hrendered hcut]
      rfl
  | written hread hd hrendered hprogress =>
      rw [referenceWriting_of_written hread hd hrendered hprogress]
      rfl

/-- The writings of the references that a run makes. -/
theorem Makes.arePartsOf {vas : List Nat} {x : Logging String} {y : Cataloguing String}
    (h : Makes read (reference read room) vas c x y)
    (hcuts : CountsCuts read (reference read room) fun call =>
      (referenceWriting read room call.va call.catalogue).cuts) :
    ArePartsOf read room vas c (y.run c)
      ((calls x c).map fun call => referenceWriting read room call.va call.catalogue) := by
  refine ⟨fun part hpart => ?_, fun va hva => ?_, fun part hpart => ?_, ?_⟩
  · obtain ⟨call, hcall, rfl⟩ := List.mem_map.1 hpart
    exact ⟨call.va, call.catalogue, h.steps call hcall, rfl⟩
  · rw [← h.addresses] at hva
    obtain ⟨call, hcall, rfl⟩ := List.mem_map.1 hva
    exact ⟨call.catalogue, h.steps call hcall, List.mem_map_of_mem hcall⟩
  · obtain ⟨call, hcall, rfl⟩ := List.mem_map.1 hpart
    rw [text_referenceWriting (h.steps call hcall).sound]
    exact h.within call hcall
  · rw [h.counted hcuts, List.flatMap_map]

/-- A writing has as many cut references as the run has counted. -/
theorem countsCuts_referenceWriting (read : Nat → Except Error Descriptor) (room : Nat) :
    CountsCuts read (reference read room) fun call =>
      (referenceWriting read room call.va call.catalogue).cuts := by
  rintro ⟨va, c⟩ hc
  have hsame := hc.sameTexts_remember va
  unfold Call.run
  dsimp only at hc ⊢
  cases referenceCase read c room va with
  | known hknown =>
      rw [referenceWriting_of_known hknown, Writing.cuts]
      exact reference_quiet_of_known hc hknown
  | cut hunnamed hrendered hcut =>
      rw [referenceWriting_of_cut hunnamed hrendered hcut, Writing.cuts,
        reference_of_cut hc hunnamed hrendered hcut]
      exact congrArg (· + 1) hsame.backReferences
  | @written room d hread hd hrendered hprogress =>
      have hparts := (makes_literal (reference_plainUnlessCut read room) d
        ((hc.remember va).writing (va :: (c.remember read va).inProgress))).arePartsOf
          (countsCuts_referenceWriting read room)
      rw [referenceWriting_of_written hread hd hrendered hprogress, Writing.cuts,
        reference_of_written hc hread hd hrendered hprogress]
      dsimp only
      rw [settle_backReferences, hparts.counted]
      exact congrArg (· + _) hsame.backReferences

/-- How a reference can come about, with what is known of the parts of a type that is written. -/
inductive WritingCase (read : Nat → Except Error Descriptor) (c : Catalogue) (va : Nat) :
    Nat → Writing → Prop
  | known {room : Nat} {text : String} (hva : Unnamed read va → va ∈ c.rendered)
    (htext : plainReference read va = some text) : WritingCase read c va room (.known va text)
  | cut {room : Nat} (hva : Unnamed read va) (hrendered : va ∉ c.rendered)
    (hcut : room = 0 ∨ va ∈ c.inProgress) : WritingCase read c va room (.cut va)
  | written {room : Nat} {d : Descriptor} {parts : List Writing} {p : String × Catalogue}
    {c' : Catalogue} (hread : read va = .ok d) (hd : d.isNamed = false)
    (hrendered : va ∉ c.rendered) (hprogress : va ∉ c.inProgress)
    (hc' : Sound read c') (hwriting : c'.inProgress = va :: c.inProgress)
    (hparts : ArePartsOf read room (d.shape.inlineReferences (shapeAt? read)) c' p parts) :
    WritingCase read c va (room + 1) (.written va p.1 parts)

theorem writingCase (hc : Sound read c) (room va : Nat) :
    WritingCase read c va room (referenceWriting read room va c) := by
  cases referenceCase read c room va with
  | known hknown =>
      obtain ⟨text, htext, hrun⟩ := reference_of_known hc room hknown
      rw [referenceWriting_of_known hknown, hrun]
      exact .known hknown htext
  | cut hunnamed hrendered hcut =>
      rw [referenceWriting_of_cut hunnamed hrendered hcut]
      exact .cut hunnamed hrendered hcut
  | @written room d hread hd hrendered hprogress =>
      have hsound := (hc.remember va).writing (va :: (c.remember read va).inProgress)
      have hparts := (makes_literal (reference_plainUnlessCut read room) d hsound).arePartsOf
        (countsCuts_referenceWriting read room)
      have hcase := WritingCase.written hread hd hrendered hprogress hsound
        (congrArg (va :: ·) (hc.sameTexts_remember va).inProgress) hparts
      rw [referenceWriting_of_written hread hd hrendered hprogress,
        reference_of_written hc hread hd hrendered hprogress]
      exact hcase

/-- Whatever stands in a reference is a reference itself, made while the types of its path are
being written, with less room by their number; and it stands whole in the text. -/
theorem exists_of_standsIn (hc : Sound read c) {part : Writing} {path : List Nat}
    (h : part.StandsIn path (referenceWriting read room va c)) :
    ∃ room' va' c', Sound read c' ∧ room = room' + path.length ∧
      c'.inProgress = path ++ c.inProgress ∧ part = referenceWriting read room' va' c' ∧
      Within part.text (referenceWriting read room va c).text := by
  generalize hw : referenceWriting read room va c = w at h
  induction h generalizing room va c with
  | self => exact ⟨room, va, c, hc, rfl, rfl, hw.symm, .refl _⟩
  | @inside va₀ text parts next path hnext _ ih =>
      have hcase := writingCase hc room va
      rw [hw] at hcase
      cases hcase with
      | @written room d _ p c₁ hread hd hrendered hprogress hc₁ hwriting hparts =>
          obtain ⟨w, c₂, hstep, hnext'⟩ := hparts.exists_of_mem next hnext
          obtain ⟨room', va', c', hc', hroom, hpath, hpart, hwithin⟩ := ih hstep.sound hnext'.symm
          refine ⟨room', va', c', hc', ?_, ?_, hpart, hwithin.trans (hparts.within next hnext)⟩
          · rw [hroom, List.length_append]
            rfl
          · rw [hpath, hstep.inProgress, hwriting, List.append_assoc]
            rfl

/-! ## Declarations -/

/-- How a declaration can come about. -/
inductive DeclarationCase (read : Nat → Except Error Descriptor) (c : Catalogue) (va : Nat) :
    Writing → Prop
  | unreadable {e : Error} (hread : read va = .error e) : DeclarationCase read c va (.known va "")
  | named {d : Descriptor} {parts : List Writing} {p : String × Catalogue} {c' : Catalogue}
    (hread : read va = .ok d) (hd : d.isNamed = true) (hc' : Sound read c')
    (hwriting : c'.inProgress = va :: c.inProgress)
    (hparts : ArePartsOf read (maxDepth - 1) (d.shape.inlineReferences (shapeAt? read)) c' p
      parts) :
    DeclarationCase read c va (.written va ("type " ++ d.name ++ " " ++ p.1) parts)
  | unnamed (hva : Unnamed read va) :
    DeclarationCase read c va (referenceWriting read maxDepth va (c.remember read va))

theorem declarationWriting_of_error (hc : Sound read c) {e : Error} (hread : read va = .error e) :
    declarationWriting read va c = .known va "" := by
  unfold declarationWriting
  rw [declaration_of_error hc hread, hread]

theorem declarationWriting_of_named {d : Descriptor} (hread : read va = .ok d)
    (hd : d.isNamed = true) :
    declarationWriting read va c =
      .written va ((declaration read va).run c).1
        ((calls ((logging read (reference read (maxDepth - 1))).definition d)
          { c.remember read va with inProgress := va :: (c.remember read va).inProgress }).map
            fun call => referenceWriting read (maxDepth - 1) call.va call.catalogue) := by
  unfold declarationWriting
  rw [hread]
  exact if_pos hd

theorem declarationWriting_of_unnamed {d : Descriptor} (hread : read va = .ok d)
    (hd : d.isNamed = false) :
    declarationWriting read va c = referenceWriting read maxDepth va (c.remember read va) := by
  unfold declarationWriting
  rw [hread]
  exact if_neg (by simp [hd])

theorem declarationCase (hc : Sound read c) (va : Nat) :
    DeclarationCase read c va (declarationWriting read va c) := by
  cases hread : read va with
  | error e =>
      rw [declarationWriting_of_error hc hread]
      exact .unreadable hread
  | ok d =>
      cases hd : d.isNamed with
      | false =>
          rw [declarationWriting_of_unnamed hread hd]
          exact .unnamed ⟨d, hread, hd⟩
      | true =>
          have hsound := (hc.remember va).writing (va :: (c.remember read va).inProgress)
          have hparts := (makes_definition (reference_plainUnlessCut read (maxDepth - 1)) d
            hsound).arePartsOf (countsCuts_referenceWriting read _)
          have hcase := DeclarationCase.named hread hd hsound
            (congrArg (va :: ·) (hc.sameTexts_remember va).inProgress) hparts
          rw [declarationWriting_of_named hread hd, declaration_of_named hc hread hd]
          exact hcase

theorem text_declarationWriting (hc : Sound read c) (va : Nat) :
    (declarationWriting read va c).text = ((declaration read va).run c).1 := by
  cases hread : read va with
  | error e => rw [declarationWriting_of_error hc hread, declaration_of_error hc hread]; rfl
  | ok d =>
      cases hd : d.isNamed with
      | true => rw [declarationWriting_of_named hread hd]; rfl
      | false =>
          rw [declarationWriting_of_unnamed hread hd, declaration_of_unnamed hc hread hd,
            text_referenceWriting (hc.remember va)]

/-- Whatever stands in a declaration is a reference that is made while exactly the types of its path
are being written, with less room by their number; and it stands whole in the text. The declaration
of what is not a type without a name is no reference. -/
theorem exists_of_standsIn_declaration (hc : Sound read c) (hprogress : c.inProgress = [])
    {part : Writing} {path : List Nat} (h : part.StandsIn path (declarationWriting read va c)) :
    (path = [] ∧ ¬ Unnamed read va ∧
      (part = .known va "" ∨ ∃ text parts, part = .written va text parts)) ∨
      ∃ room va' c', Sound read c' ∧ maxDepth = room + path.length ∧ c'.inProgress = path ∧
        part = referenceWriting read room va' c' ∧
        Within part.text ((declaration read va).run c).1 := by
  have hcase := declarationCase hc va
  rw [← text_declarationWriting hc]
  generalize declarationWriting read va c = w at h hcase ⊢
  cases hcase with
  | unreadable hread =>
      cases h with
      | self =>
          refine .inl ⟨rfl, ?_, .inl rfl⟩
          rintro ⟨d, hread', -⟩
          cases hread.symm.trans hread'
  | @named d parts p c₁ hread hd hc₁ hwriting hparts =>
      cases h with
      | self =>
          refine .inl ⟨rfl, ?_, .inr ⟨_, _, rfl⟩⟩
          rintro ⟨d', hread', hd'⟩
          obtain rfl : d = d' := Except.ok.inj (hread.symm.trans hread')
          cases hd.symm.trans hd'
      | @inside _ _ _ next path hnext hstands =>
          obtain ⟨w, c₂, hstep, rfl⟩ := hparts.exists_of_mem next hnext
          obtain ⟨room, va', c', hc', hroom, hpath, hpart, hwithin⟩ :=
            exists_of_standsIn hstep.sound hstands
          refine .inr ⟨room, va', c', hc', ?_, ?_, hpart, ?_⟩
          · rw [List.length_append, List.length_singleton, ← Nat.add_assoc, ← hroom]
            rfl
          · rw [hpath, hstep.inProgress, hwriting, hprogress]
          · exact hwithin.trans ((hparts.within _ hnext).append_left _)
  | unnamed hva =>
      obtain ⟨room, va', c', hc', hroom, hpath, hpart, hwithin⟩ :=
        exists_of_standsIn (hc.remember va) h
      refine .inr ⟨room, va', c', hc', hroom, ?_, hpart, hwithin⟩
      rw [hpath, (hc.sameTexts_remember va).inProgress, hprogress, List.append_nil]

end Writing

end Catalogue
end GoImage
