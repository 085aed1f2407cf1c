import GoImage.Proofs.TypeInfo.PlainText

/-! # Parts stand whole in what is put together

A literal uses the text of each of its references, in order and each of them once. So every one of
these texts stands in the literal as it is. -/

namespace GoImage

/-! ## A text within another one -/

/-- One text stands somewhere in another one. -/
def Within (part whole : String) : Prop :=
  ∃ before behind, whole = before ++ part ++ behind

namespace Within

variable {part whole : String}

theorem refl (part : String) : Within part part :=
  ⟨"", "", by simp⟩

theorem append_left (h : Within part whole) (s : String) : Within part (s ++ whole) := by
  obtain ⟨before, behind, rfl⟩ := h
  exact ⟨s ++ before, behind, by simp only [String.append_assoc]⟩

theorem append_right (h : Within part whole) (s : String) : Within part (whole ++ s) := by
  obtain ⟨before, behind, rfl⟩ := h
  exact ⟨before, behind ++ s, by simp only [String.append_assoc]⟩

theorem trans {middle : String} (h₁ : Within part middle) (h₂ : Within middle whole) :
    Within part whole := by
  obtain ⟨before, behind, rfl⟩ := h₂
  exact (h₁.append_left before).append_right behind

end Within

/-- One text stands in one of several others. -/
def WithinAny (part : String) (texts : List String) : Prop :=
  ∃ text ∈ texts, Within part text

namespace WithinAny

variable {part : String} {texts : List String}

theorem head {text : String} (h : Within part text) : WithinAny part (text :: texts) :=
  ⟨text, List.mem_cons_self, h⟩

theorem tail (h : WithinAny part texts) (text : String) : WithinAny part (text :: texts) := by
  obtain ⟨text', htext', hpart⟩ := h
  exact ⟨text', List.mem_cons_of_mem text htext', hpart⟩

theorem intercalate (h : WithinAny part texts) (separator : String) :
    Within part (String.intercalate separator texts) := by
  induction texts with
  | nil =>
      obtain ⟨text, htext, -⟩ := h
      exact absurd htext List.not_mem_nil
  | cons text texts ih =>
      obtain ⟨text', htext', hpart⟩ := h
      cases texts with
      | nil =>
          rw [List.mem_singleton.1 htext'] at hpart
          simpa using hpart
      | cons next rest =>
          rw [String.intercalate_cons_cons]
          rcases List.mem_cons.1 htext' with rfl | htext'
          · exact (hpart.append_right _).append_right _
          · exact (ih ⟨text', htext', hpart⟩).append_left _

theorem join (h : WithinAny part texts) : Within part (String.join texts) := by
  induction texts with
  | nil =>
      obtain ⟨text, htext, -⟩ := h
      exact absurd htext List.not_mem_nil
  | cons text texts ih =>
      obtain ⟨text', htext', hpart⟩ := h
      rw [String.join_cons]
      rcases List.mem_cons.1 htext' with rfl | htext'
      · exact hpart.append_right _
      · exact (ih ⟨text', htext', hpart⟩).append_left _

theorem inlineMembers (h : WithinAny part texts) (keyword : String) :
    Within part (GoImage.inlineMembers keyword texts) := by
  have hall := h.intercalate "; "
  obtain ⟨text, htext, -⟩ := h
  unfold GoImage.inlineMembers
  rw [if_neg (by simpa using List.ne_nil_of_mem htext)]
  exact (hall.append_left _).append_right _

theorem blockMembers (h : WithinAny part texts) (keyword : String) :
    Within part (GoImage.blockMembers keyword texts) := by
  obtain ⟨text, htext, hpart⟩ := h
  have hline := (hpart.append_left "    ").append_right "\n"
  have hall := join ⟨_, List.mem_map_of_mem (f := fun member => "    " ++ member ++ "\n") htext,
    hline⟩
  unfold GoImage.blockMembers
  rw [if_neg (by simpa using List.ne_nil_of_mem htext)]
  exact (hall.append_left _).append_right _

theorem signatureText_params {params : List String} (h : WithinAny part params)
    (results : List String) : Within part (signatureText params results) := by
  have hparams := ((h.intercalate ", ").append_left "(").append_right ")"
  unfold signatureText
  cases results with
  | nil => exact hparams
  | cons result rest =>
      cases rest with
      | nil => exact (hparams.append_right " ").append_right result
      | cons next rest => exact ((hparams.append_right " (").append_right _).append_right ")"

theorem signatureText_results {results : List String} (h : WithinAny part results)
    (params : List String) : Within part (signatureText params results) := by
  have hresults := h.intercalate ", "
  unfold signatureText
  cases results with
  | nil =>
      obtain ⟨text, htext, -⟩ := h
      exact absurd htext List.not_mem_nil
  | cons result rest =>
      cases rest with
      | nil =>
          rw [String.intercalate_singleton] at hresults
          exact hresults.append_left _
      | cons next rest => exact (hresults.append_left _).append_right ")"

end WithinAny

theorem Within.fieldText {part type : String} (h : Within part type) (f : Field) :
    Within part (fieldText f type) := by
  have hline : Within part
      (if f.embedded || f.name.isEmpty then type else f.name ++ " " ++ type) := by
    split
    · exact h
    · exact h.append_left _
  unfold GoImage.fieldText
  cases f.tag with
  | none => exact hline
  | some tag =>
      dsimp only
      split
      · exact hline
      · exact ((hline.append_right _).append_right _).append_right _

/-! ## Texts that are handed out in turn -/

/-- Spells with given shapes, and with texts that are handed out in turn. -/
def replaying (shape? : Nat → Option Shape) : Speller (StateM (List String)) :=
  { reference := fun _ => modifyGet fun texts => (texts.headD "", texts.tail)
    shape? := fun va => return shape? va }

/-- A run takes as many texts as there are addresses, and all of them show in its result. -/
def Uses {α : Type} (Shows : String → α → Prop) (vas : List Nat) (x : StateM (List String) α) :
    Prop :=
  ∀ texts rest, texts.length = vas.length →
    ∃ a, x.run (texts ++ rest) = (a, rest) ∧ ∀ text ∈ texts, Shows text a

section Uses

variable {α β γ : Type} {Shows : String → α → Prop} {Shows' : String → β → Prop}
variable {Shows'' : String → γ → Prop}

theorem Uses.pure (Shows : String → α → Prop) (a : α) : Uses Shows [] (Pure.pure a) := by
  intro texts rest htexts
  obtain rfl : texts = [] := List.eq_nil_of_length_eq_zero htexts
  exact ⟨a, rfl, fun text htext => absurd htext List.not_mem_nil⟩

theorem Uses.map {vas : List Nat} {x : StateM (List String) α} (hx : Uses Shows vas x) {f : α → β}
    (hf : ∀ {text a}, Shows text a → Shows' text (f a)) :
    Uses Shows' vas (x >>= fun a => Pure.pure (f a)) := by
  intro texts rest htexts
  obtain ⟨a, hrun, hshows⟩ := hx texts rest htexts
  refine ⟨f a, ?_, fun text htext => hf (hshows text htext)⟩
  rw [StateT.run_bind, hrun]
  rfl

/-- Of two runs, the first one takes the texts in front. -/
theorem Uses.both {vas vas' : List Nat} {x : StateM (List String) α} {y : StateM (List String) β}
    (hx : Uses Shows vas x) (hy : Uses Shows' vas' y) {f : α → β → γ}
    (hleft : ∀ {text a} b, Shows text a → Shows'' text (f a b))
    (hright : ∀ {text b} a, Shows' text b → Shows'' text (f a b)) :
    Uses Shows'' (vas ++ vas') (x >>= fun a => y >>= fun b => Pure.pure (f a b)) := by
  intro texts rest htexts
  obtain ⟨front, back, rfl, hfront, hback⟩ : ∃ front back, texts = front ++ back ∧
      front.length = vas.length ∧ back.length = vas'.length := by
    refine ⟨texts.take vas.length, texts.drop vas.length, (List.take_append_drop _ _).symm, ?_⟩
    rw [List.length_append] at htexts
    rw [List.length_take, List.length_drop]
    omega
  obtain ⟨a, hrun, hshows⟩ := hx front (back ++ rest) hfront
  obtain ⟨b, hrun', hshows'⟩ := hy back rest hback
  refine ⟨f a b, ?_, fun text htext => ?_⟩
  · rw [List.append_assoc, StateT.run_bind, hrun]
    change StateT.run (y >>= _) _ = _
    rw [StateT.run_bind, hrun']
    rfl
  · rcases List.mem_append.1 htext with htext | htext
    · exact hleft b (hshows text htext)
    · exact hright a (hshows' text htext)

theorem Uses.mapM {f : α → StateM (List String) String} {g : α → List Nat}
    (hf : ∀ a, Uses Within (g a) (f a)) (as : List α) :
    Uses WithinAny (as.flatMap g) (as.mapM f) := by
  induction as with
  | nil =>
      rw [List.mapM_nil]
      exact .pure _ []
  | cons a as ih =>
      rw [List.mapM_cons]
      exact (hf a).both ih (fun _ h => .head h) (fun _ h => h.tail _)

variable (shape? : Nat → Option Shape)

theorem uses_reference (va : Nat) : Uses Within [va] ((replaying shape?).reference va) := by
  intro texts rest htexts
  obtain ⟨text, rfl⟩ := List.length_eq_one_iff.1 htexts
  refine ⟨text, rfl, fun text' htext' => ?_⟩
  rw [List.mem_singleton.1 htext']
  exact .refl text

theorem uses_variadicParam (param : Nat) :
    Uses Within [variadicReference shape? param] ((replaying shape?).variadicParam param) := by
  have hdots : ∀ va, Uses Within [va] ((replaying shape?).reference va >>= fun text =>
      Pure.pure ("..." ++ text)) := fun va =>
    (uses_reference shape? va).map fun h => h.append_left _
  unfold variadicReference
  simp only [Speller.variadicParam, replaying, pure_bind]
  cases shape? param with
  | none => exact hdots param
  | some shape => cases shape <;> exact hdots _

theorem uses_params (variadic : Bool) (params : List Nat) :
    Uses WithinAny (paramReferences shape? variadic params)
      ((replaying shape?).params variadic params) := by
  induction params with
  | nil => exact .pure _ []
  | cons param rest ih =>
      cases rest with
      | nil =>
          cases variadic with
          | false => exact (uses_reference shape? param).map .head
          | true => exact (uses_variadicParam shape? param).map .head
      | cons next rest =>
          exact (uses_reference shape? param).both ih (fun _ h => .head h) (fun _ h => h.tail _)

theorem uses_signature (params results : List Nat) (variadic : Bool) :
    Uses Within (signatureReferences shape? params results variadic)
      ((replaying shape?).signature params results variadic) := by
  have hresults := Uses.mapM (uses_reference shape?) results
  rw [List.flatMap_singleton'] at hresults
  exact (uses_params shape? variadic params).both hresults
    (fun results h => h.signatureText_params results)
    (fun params h => h.signatureText_results params)

theorem uses_method (method : Method) :
    Uses Within (methodReferences shape? method) ((replaying shape?).method method) := by
  unfold Speller.method methodReferences
  cases method.type with
  | none => exact .pure _ _
  | some va =>
      simp only [replaying, Option.bind_some, pure_bind]
      cases shape? va with
      | none => exact .pure _ _
      | some shape =>
          cases shape with
          | func params results variadic =>
              exact (uses_signature shape? params results variadic).map fun h => h.append_left _
          | _ => exact .pure _ _

theorem uses_methods (methods : List Method) :
    Uses WithinAny (methods.flatMap (methodReferences shape?))
      (methods.mapM (replaying shape?).method) :=
  .mapM (uses_method shape?) methods

theorem uses_fields (fields : List Field) :
    Uses WithinAny (fields.map (·.type)) (fields.mapM (replaying shape?).field) := by
  rw [List.map_eq_flatMap]
  exact .mapM (fun f => (uses_reference shape? f.type).map fun h => h.fieldText f) fields

/-- A literal shows the texts of all its references. -/
theorem uses_literal (d : Descriptor) :
    Uses Within (d.shape.inlineReferences shape?) ((replaying shape?).literal d) := by
  unfold Speller.literal
  cases d.shape with
  | basic => exact .pure _ _
  | array elem _ | chan elem _ | pointer elem | slice elem =>
      exact (uses_reference shape? elem).map fun h => h.append_left _
  | func params results variadic =>
      exact (uses_signature shape? params results variadic).map fun h => h.append_left _
  | interface methods => exact (uses_methods shape? methods).map fun h => h.inlineMembers _
  | map key elem =>
      exact (uses_reference shape? key).both (uses_reference shape? elem)
        (fun _ h => ((h.append_left _).append_right _).append_right _)
        (fun _ h => h.append_left _)
  | struct fields => exact (uses_fields shape? fields).map fun h => h.inlineMembers _

theorem uses_definition (d : Descriptor) :
    Uses Within (d.shape.inlineReferences shape?) ((replaying shape?).definition d) := by
  have hliteral := uses_literal shape? d
  unfold Speller.definition
  cases hshape : d.shape with
  | interface methods => exact (uses_methods shape? methods).map fun h => h.blockMembers _
  | struct fields => exact (uses_fields shape? fields).map fun h => h.blockMembers _
  | _ =>
      rw [hshape] at hliteral
      exact hliteral

end Uses

end GoImage
