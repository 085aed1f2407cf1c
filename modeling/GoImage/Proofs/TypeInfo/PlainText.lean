import GoImage.Proofs.TypeInfo.Parametricity
import GoImage.TypeInfo.Catalogue
import Mathlib.Logic.Relation

/-! # Types written out in full

The plain text of a type is what the rules of spelling give if nothing is remembered and nothing
is cut short. A type that has one cannot lead back to a type that it passes through. -/

namespace GoImage

/-! ## The addresses that spelling asks for -/

/-- Notes all addresses that it is asked about, for a text or for a shape. -/
def visiting (shape? : Nat → Option Shape) : Speller (StateM (List Nat)) :=
  { reference := fun va => do
      modify (· ++ [va])
      return ""
    shape? := fun va => do
      modify (· ++ [va])
      return shape? va }

/-- Notes the addresses that it is asked for, and writes nothing. -/
def noting (shape? : Nat → Option Shape) : Speller (StateM (List Nat)) :=
  { reference := fun va => do
      modify (· ++ [va])
      return ""
    shape? := fun va => return shape? va }

section Noting

variable (shape? : Nat → Option Shape)

theorem noting_mapM {α β : Type} {f : α → StateM (List Nat) β} {g : α → List Nat}
    (hf : ∀ a l, ((f a).run l).2 = l ++ g a) (as : List α) (l : List Nat) :
    ((as.mapM f).run l).2 = l ++ as.flatMap g := by
  induction as generalizing l with
  | nil => exact (List.append_nil l).symm
  | cons a as ih =>
      have ha := hf a l
      have has := ih ((f a).run l).2
      simp only [List.mapM_cons, StateT.run_bind, StateT.run_pure, List.flatMap_cons]
      rw [← List.append_assoc, ← ha, ← has]
      rfl

theorem noting_params (variadic : Bool) (params l : List Nat) :
    (((noting shape?).params variadic params).run l).2 =
      l ++ paramReferences shape? variadic params := by
  induction params generalizing l with
  | nil => exact (List.append_nil l).symm
  | cons param rest ih =>
      cases rest with
      | nil =>
          cases variadic with
          | false => rfl
          | true =>
              simp only [Speller.params, Speller.variadicParam, paramReferences,
                variadicReference, noting, if_true]
              cases shape? param with
              | none => rfl
              | some shape => cases shape <;> rfl
      | cons next rest =>
          have hrest := ih (l ++ [param])
          rw [List.append_assoc] at hrest
          exact hrest

theorem noting_signature (params results : List Nat) (variadic : Bool) (l : List Nat) :
    (((noting shape?).signature params results variadic).run l).2 =
      l ++ signatureReferences shape? params results variadic := by
  have hparams := noting_params shape? variadic params l
  have hresults := noting_mapM (f := (noting shape?).reference) (g := fun va => [va])
    (fun _ _ => rfl) results (((noting shape?).params variadic params).run l).2
  rw [List.flatMap_singleton', hparams, List.append_assoc] at hresults
  rw [← hparams] at hresults
  exact hresults

theorem noting_method (method : Method) (l : List Nat) :
    (((noting shape?).method method).run l).2 = l ++ methodReferences shape? method := by
  unfold Speller.method methodReferences
  cases method.type with
  | none => exact (List.append_nil l).symm
  | some va =>
      simp only [noting, Option.bind_some, StateT.run_bind, StateT.run_pure]
      cases shape? va with
      | none => exact (List.append_nil l).symm
      | some shape =>
          cases shape with
          | func params results variadic =>
              exact noting_signature shape? params results variadic l
          | _ => exact (List.append_nil l).symm

theorem noting_methods (methods : List Method) (l : List Nat) :
    ((methods.mapM (noting shape?).method).run l).2 =
      l ++ methods.flatMap (methodReferences shape?) :=
  noting_mapM (noting_method shape?) methods l

theorem noting_fields (fields : List Field) (l : List Nat) :
    ((fields.mapM (noting shape?).field).run l).2 = l ++ fields.map (·.type) := by
  rw [List.map_eq_flatMap]
  exact noting_mapM (fun _ _ => rfl) fields l

theorem noting_literal (d : Descriptor) (l : List Nat) :
    (((noting shape?).literal d).run l).2 = l ++ d.shape.inlineReferences shape? := by
  unfold Speller.literal
  cases d.shape with
  | basic => exact (List.append_nil l).symm
  | array elem _ | chan elem _ | pointer elem | slice elem => rfl
  | func params results variadic => exact noting_signature shape? params results variadic l
  | interface methods => exact noting_methods shape? methods l
  | map key elem => exact List.append_assoc l [key] [elem]
  | struct fields => exact noting_fields shape? fields l

theorem noting_definition (d : Descriptor) (l : List Nat) :
    (((noting shape?).definition d).run l).2 = l ++ d.shape.inlineReferences shape? := by
  have hliteral := noting_literal shape? d l
  unfold Speller.definition
  cases hshape : d.shape with
  | interface methods => exact noting_methods shape? methods l
  | struct fields => exact noting_fields shape? fields l
  | _ =>
      rw [hshape] at hliteral
      exact hliteral

end Noting

/-! ## Plain texts -/

/-- The shape of the type at an address, if it can be read. -/
def shapeAt? (read : Nat → Except Error Descriptor) (va : Nat) : Option Shape :=
  (read va).toOption.map (·.shape)

/-- The addresses that are looked at while a type is defined, or written out where another one
refers to it. -/
def visited (read : Nat → Except Error Descriptor) (d : Descriptor) : List Nat :=
  (((visiting (shapeAt? read)).definition d).run []).2

theorem visiting_literal (read : Nat → Except Error Descriptor) (d : Descriptor) :
    (((visiting (shapeAt? read)).literal d).run []).2 = visited read d := by
  unfold visited Speller.definition
  cases hshape : d.shape with
  | struct | interface =>
      unfold Speller.literal
      rw [hshape]
      rfl
  | _ => rfl

/-- Spells with shapes as they are read and references from elsewhere. -/
def plainSpelling (read : Nat → Except Error Descriptor) (reference : Nat → Option String) :
    Speller Option :=
  { reference, shape? := fun va => some (shapeAt? read va) }

/-- Spells with shapes as they are read and references that are written already. -/
def directSpelling (read : Nat → Except Error Descriptor) (reference : Nat → String) :
    Speller Id :=
  { reference, shape? := shapeAt? read }

/-- If the left run ends, so does the right one, with a related result. -/
def extending : RunRel Option Option where
  rel R x y := ∀ a, x = some a → ∃ b, y = some b ∧ R a b
  pure := by
    rintro _ _ R a b hab _ ⟨⟩
    exact ⟨b, rfl, hab⟩
  bind := by
    intro _ _ _ _ R S x y f g hxy hfg c hc
    obtain ⟨a, rfl, hfa⟩ := Option.bind_eq_some_iff.1 hc
    obtain ⟨b, rfl, hab⟩ := hxy a rfl
    exact hfg a b hab c hfa

/-- The texts of its inline references decide the text of a literal. -/
theorem literal_extending {read : Nat → Except Error Descriptor} {f g : Nat → Option String}
    {d : Descriptor} (hfg : ∀ va ∈ d.shape.inlineReferences (shapeAt? read), ∀ text,
      f va = some text → g va = some text) {text : String}
    (h : (plainSpelling read f).literal d = some text) :
    (plainSpelling read g).literal d = some text := by
  have hrel : Speller.Related extending (· = ·) (shapeAt? read)
      (d.shape.inlineReferences (shapeAt? read)) (plainSpelling read f) (plainSpelling read g) := by
    constructor
    · rintro va _ ⟨⟩
      exact ⟨_, rfl, rfl, rfl⟩
    · intro va hva text htext
      exact ⟨text, hfg va hva text htext, rfl⟩
  obtain ⟨_, htext, rfl⟩ := hrel.literal TextRel.eq text h
  exact htext

/-- If the left run ends, the right one has noted only addresses with a property. -/
def notingOnly (P : Nat → Prop) : RunRel Option (StateM (List Nat)) where
  rel R x y := ∀ a, x = some a → ∀ l, (∀ va ∈ l, P va) →
    R a (y.run l).1 ∧ ∀ va ∈ (y.run l).2, P va
  pure := by
    rintro _ _ R a b hab _ ⟨⟩ l hl
    exact ⟨hab, hl⟩
  bind := by
    intro _ _ _ _ R S x y f g hxy hfg c hc l hl
    obtain ⟨a, rfl, hfa⟩ := Option.bind_eq_some_iff.1 hc
    obtain ⟨hab, hnoted⟩ := hxy a rfl l hl
    exact hfg a _ hab c hfa _ hnoted

/-- A literal that ends has asked for the texts of all inline references. -/
theorem exists_reference_of_literal {read : Nat → Except Error Descriptor}
    {f : Nat → Option String} {d : Descriptor} {text : String}
    (h : (plainSpelling read f).literal d = some text) :
    ∀ va ∈ d.shape.inlineReferences (shapeAt? read), ∃ text, f va = some text := by
  have hrel : Speller.Related (notingOnly fun va => ∃ text, f va = some text)
      (fun _ _ => True) (shapeAt? read) (d.shape.inlineReferences (shapeAt? read))
      (plainSpelling read f) (noting (shapeAt? read)) := by
    constructor
    · rintro va _ ⟨⟩ l hl
      exact ⟨⟨rfl, rfl⟩, hl⟩
    · intro va _ text htext l hl
      refine ⟨trivial, fun w hw => ?_⟩
      rcases List.mem_append.1 hw with hw | hw
      · exact hl w hw
      · rw [List.mem_singleton.1 hw]
        exact ⟨text, htext⟩
  have hall := (hrel.literal ⟨fun _ => trivial, fun _ _ => trivial⟩ text h [] (by simp)).2
  rw [noting_literal] at hall
  simpa using hall

/-- The text of a type where another one refers to it, with nothing remembered and nothing cut
short; `none` if following the references does not end within so many. -/
def plainWithin (read : Nat → Except Error Descriptor) : (room va : Nat) → Option String
  | 0, _ => none
  | room + 1, va =>
    match read va with
    | .error _ => some (invalidText va)
    | .ok d =>
      if d.isNamed then some d.name
      else (plainSpelling read (plainWithin read room)).literal d

section PlainWithin

variable {read : Nat → Except Error Descriptor} {room va : Nat} {text : String}

theorem plainWithin_of_unnamed {d : Descriptor} (h : read va = .ok d) (hd : d.isNamed = false) :
    plainWithin read (room + 1) va = (plainSpelling read (plainWithin read room)).literal d := by
  rw [plainWithin, h]
  simp [hd]

theorem plainWithin_mono (h : plainWithin read room va = some text) {room' : Nat}
    (hle : room ≤ room') : plainWithin read room' va = some text := by
  induction room generalizing va text room' with
  | zero => cases h
  | succ room ih =>
      obtain ⟨room', rfl⟩ := Nat.exists_eq_add_of_le' (Nat.le_trans (Nat.le_add_left 1 room) hle)
      rw [plainWithin] at h ⊢
      cases hread : read va with
      | error e =>
          rw [hread] at h
          exact h
      | ok d =>
          rw [hread] at h
          dsimp only at h ⊢
          split
          · rename_i hd
            rw [if_pos hd] at h
            exact h
          · rename_i hd
            rw [if_neg hd] at h
            exact literal_extending (fun _ _ _ hw => ih hw (Nat.le_of_succ_le_succ hle)) h

theorem plainWithin_unique {room' : Nat} {text' : String}
    (h : plainWithin read room va = some text) (h' : plainWithin read room' va = some text') :
    text = text' := by
  have hmax := plainWithin_mono h (Nat.le_max_left room room')
  have hmax' := plainWithin_mono h' (Nat.le_max_right room room')
  exact Option.some.inj (hmax.symm.trans hmax')

end PlainWithin

open Classical in
/-- The text of a type where another one refers to it, with nothing remembered and nothing cut
short; `none` if following the references does not end. -/
noncomputable def plainReference (read : Nat → Except Error Descriptor) (va : Nat) :
    Option String :=
  if h : ∃ text room, plainWithin read room va = some text then some h.choose else none

section PlainReference

variable {read : Nat → Except Error Descriptor} {va : Nat} {text : String}

theorem plainReference_eq_some :
    plainReference read va = some text ↔ ∃ room, plainWithin read room va = some text := by
  unfold plainReference
  split
  · rename_i h
    obtain ⟨room, hroom⟩ := h.choose_spec
    constructor
    · rintro ⟨⟩
      exact ⟨room, hroom⟩
    · rintro ⟨room', hroom'⟩
      exact congrArg some (plainWithin_unique hroom hroom')
  · rename_i h
    constructor
    · rintro ⟨⟩
    · exact fun hroom => absurd ⟨text, hroom⟩ h

/-- Finitely many texts all come to an end within so many references. -/
theorem exists_room (read : Nat → Except Error Descriptor) (vas : List Nat) :
    ∃ room, ∀ va ∈ vas, ∀ text, plainReference read va = some text →
      plainWithin read room va = some text := by
  induction vas with
  | nil => exact ⟨0, fun va hva => absurd hva List.not_mem_nil⟩
  | cons va vas ih =>
      obtain ⟨room, hroom⟩ := ih
      cases hva : plainReference read va with
      | none =>
          refine ⟨room, fun w hw text htext => ?_⟩
          rcases List.mem_cons.1 hw with rfl | hw
          · cases hva.symm.trans htext
          · exact hroom w hw text htext
      | some text' =>
          obtain ⟨room', hroom'⟩ := plainReference_eq_some.1 hva
          refine ⟨max room room', fun w hw text htext => ?_⟩
          rcases List.mem_cons.1 hw with rfl | hw
          · cases hva.symm.trans htext
            exact plainWithin_mono hroom' (Nat.le_max_right room room')
          · exact plainWithin_mono (hroom w hw text htext) (Nat.le_max_left room room')

theorem plainReference_of_error {e : Error} (h : read va = .error e) :
    plainReference read va = some (invalidText va) :=
  plainReference_eq_some.2 ⟨1, by rw [plainWithin, h]⟩

theorem plainReference_of_named {d : Descriptor} (h : read va = .ok d) (hd : d.isNamed = true) :
    plainReference read va = some d.name :=
  plainReference_eq_some.2 ⟨1, by rw [plainWithin, h]; exact if_pos hd⟩

/-- The text of a type without a name is its literal, with the texts of its references. -/
theorem plainReference_of_unnamed {d : Descriptor} (h : read va = .ok d)
    (hd : d.isNamed = false) :
    plainReference read va = (plainSpelling read (plainReference read)).literal d := by
  ext text
  rw [plainReference_eq_some]
  constructor
  · rintro ⟨_ | room, hroom⟩
    · cases hroom
    · rw [plainWithin_of_unnamed h hd] at hroom
      exact literal_extending (fun _ _ _ hw => plainReference_eq_some.2 ⟨room, hw⟩) hroom
  · intro htext
    obtain ⟨room, hroom⟩ := exists_room read (d.shape.inlineReferences (shapeAt? read))
    refine ⟨room + 1, ?_⟩
    rw [plainWithin_of_unnamed h hd]
    exact literal_extending hroom htext

end PlainReference

/-- The declaration of a type, or the empty text if it cannot be read, put together from plain
texts. -/
noncomputable def plainDeclaration (read : Nat → Except Error Descriptor) (va : Nat) :
    Option String :=
  match read va with
  | .error _ => some ""
  | .ok d =>
    if d.isNamed then do
      return "type " ++ d.name ++ " " ++
        (← (plainSpelling read (plainReference read)).definition d)
    else plainReference read va

/-! ## Following references -/

/-- Whether a type can be read and has no name, so that it is written out where it is referred
to. -/
def Unnamed (read : Nat → Except Error Descriptor) (va : Nat) : Prop :=
  ∃ d, read va = .ok d ∧ d.isNamed = false

/-- One type refers to another one, which has no name. -/
def Refers (read : Nat → Except Error Descriptor) (va target : Nat) : Prop :=
  ∃ d, read va = .ok d ∧ target ∈ d.shape.inlineReferences (shapeAt? read) ∧ Unnamed read target

/-- Below a type with a plain text, inline references come to an end. -/
theorem acc_of_plainReference {read : Nat → Except Error Descriptor} {va : Nat} {text : String}
    (hva : Unnamed read va) (h : plainReference read va = some text) :
    Acc (fun w u => Refers read u w) va := by
  obtain ⟨room, hroom⟩ := plainReference_eq_some.1 h
  clear h
  induction room generalizing va text with
  | zero => cases hroom
  | succ room ih =>
      obtain ⟨d, hread, hd⟩ := hva
      rw [plainWithin_of_unnamed hread hd] at hroom
      refine ⟨va, fun w hw => ?_⟩
      obtain ⟨d', hread', hmem, hw⟩ := hw
      obtain rfl : d = d' := Except.ok.inj (hread.symm.trans hread')
      obtain ⟨t, ht⟩ := exists_reference_of_literal hroom w hmem
      exact ih hw ht

theorem not_transGen_of_acc {α : Type} {r : α → α → Prop} {a : α} (h : Acc r a) :
    ¬ Relation.TransGen r a a := by
  induction h with
  | intro a _ ih =>
      intro hcycle
      obtain ⟨b, hab, hba⟩ := Relation.TransGen.tail'_iff.1 hcycle
      exact ih b hba (.head' hba hab)

/-- A type without a way back to where it came from: no cycle of inline references can be
reached. -/
def Acyclic (read : Nat → Except Error Descriptor) (va : Nat) : Prop :=
  ∀ w, Relation.ReflTransGen (Refers read) va w → ¬ Relation.TransGen (Refers read) w w

theorem acyclic_of_plainReference {read : Nat → Except Error Descriptor} {va : Nat}
    {text : String} (hva : Unnamed read va) (h : plainReference read va = some text) :
    Acyclic read va := by
  intro w hw
  have hacc : Acc (fun w u => Refers read u w) w := by
    induction hw with
    | refl => exact acc_of_plainReference hva h
    | tail _ hstep ih => exact ih.inv hstep
  exact fun hcycle => not_transGen_of_acc hacc (Relation.transGen_swap.2 hcycle)

end GoImage
