import GoImage.Proofs.BuildInfo.Lines
import GoImage.Proofs.Image.Content
import GoImage.Proofs.Text.Append
import Mathlib.Data.List.Basic

/-! # Beginnings of lines

A line of module information that breaks off may still have the shape of a whole line. It then says
the same as the whole one in few cases only. -/

namespace GoImage.BuildInfo

open Text

variable {text rest : List Char}

/-! ## Columns -/

theorem count_tab {front : List (List Char)} {last : List Char}
    (h : pieces '\t' text = front ++ [last]) : text.count '\t' = front.length := by
  have hlength := length_pieces '\t' text
  rw [h, List.length_append, List.length_singleton] at hlength
  omega

/-- The beginning of a module says no other module exactly if its version has not begun, or nothing
but an empty checksum is missing. -/
theorem moduleOf_beginning_iff {whole : Module} (hwhole : moduleOf (text ++ rest) = .ok whole) :
    (∀ m, moduleOf text = .ok m → whole = m) ↔
      ('\t' ∈ text → rest = [] ∨ rest = ['\t']) := by
  obtain ⟨front, last, first, more, htext, hrest, hboth⟩ := exists_pieces_append '\t' text rest
  have hcount := count_tab htext
  rw [← List.count_pos_iff, hcount, ← @pieces_eq_nil_iff '\t',
    ← pieces_eq_nil_nil_iff, hrest]
  unfold moduleOf columns at hwhole ⊢
  rw [hboth] at hwhole
  rw [htext]
  rcases front with _ | ⟨path, _ | ⟨version, _ | ⟨_, front⟩⟩⟩
  · simp
  · rcases more with _ | ⟨sum, _ | ⟨_, more⟩⟩
    · cases hwhole
      simp
    · cases hwhole
      simp
    · cases hwhole
  · rcases more with _ | ⟨_, more⟩
    · cases hwhole
      simp
    · cases hwhole
  · cases front <;> cases hwhole

theorem replacementOf_beginning_iff {whole : ModuleVersion}
    (hwhole : replacementOf (text ++ rest) = .ok whole) :
    (∀ v, replacementOf text = .ok v → whole = v) ↔ (text.count '\t' = 2 → rest = []) := by
  obtain ⟨front, last, first, more, htext, hrest, hboth⟩ := exists_pieces_append '\t' text rest
  rw [count_tab htext, ← @pieces_eq_nil_iff '\t', hrest]
  unfold replacementOf columns at hwhole ⊢
  rw [hboth] at hwhole
  rw [htext]
  rcases front with _ | ⟨path, _ | ⟨version, _ | ⟨_, front⟩⟩⟩
  · simp
  · simp
  · rcases more with _ | ⟨_, more⟩
    · cases hwhole
      simp
    · cases hwhole
  · cases front <;> cases hwhole

/-! ## Settings -/

/-- Whether a value starts as a literal does. -/
def OpensLiteral (value : List Char) : Prop :=
  value.head? = some '"' ∨ value.head? = some backquote

instance (value : List Char) : Decidable (OpensLiteral value) :=
  inferInstanceAs (Decidable (_ ∨ _))

theorem opensLiteral_append {value : List Char} (h : value ≠ []) (rest : List Char) :
    OpensLiteral (value ++ rest) ↔ OpensLiteral value := by
  unfold OpensLiteral
  rw [List.head?_append_of_ne_nil _ h]

/-- A key that is complete stays the key. -/
theorem settingKey_append {key value : List Char} (h : settingKey text = .ok (key, value))
    (rest : List Char) : settingKey (text ++ rest) = .ok (key, value ++ rest) := by
  have hne : text ≠ [] := by
    rintro rfl
    cases h
  unfold settingKey at h ⊢
  rw [List.head?_append_of_ne_nil _ hne]
  by_cases hquote : text.head? = some '"'
  · rw [if_pos hquote] at h ⊢
    split at h
    · cases h
    · rename_i hliteral
      cases h
      rw [literal?_append hliteral]
      rfl
    · cases h
  · rw [if_neg hquote] at h ⊢
    cases hcut : cut? '=' text with
    | none =>
        rw [hcut] at h
        cases h
    | some found =>
        rw [hcut] at h
        cases h
        rw [cut?_append hcut]

theorem settingValue_of_opensLiteral {value value' : List Char} (hopens : OpensLiteral value) :
    settingValue value = .ok value' ↔ literal? value = some (value', []) := by
  have hhead : value.head? = some '"' ∨ value.head? = some backquote := hopens
  unfold settingValue
  rw [if_pos hhead]
  split
  · rename_i hliteral
    simp [hliteral]
  · rename_i hnone
    simpa using fun hliteral => hnone value' hliteral

theorem settingValue_of_not_opensLiteral {value : List Char} (hopens : ¬ OpensLiteral value) :
    settingValue value = .ok value :=
  if_neg hopens

theorem settingOf_eq_map {key value : List Char} (hkey : settingKey text = .ok (key, value)) :
    settingOf text =
      (settingValue value).map fun value' => ⟨String.ofList key, String.ofList value'⟩ := by
  have hne : text.isEmpty = false := by
    cases text with
    | nil => cases hkey
    | cons c text => rfl
  simp only [settingOf, hne, hkey, Bool.false_eq_true, ↓reduceIte]
  change settingValue value >>= _ = _
  cases settingValue value <;> rfl

theorem settingOf_of_key_error {fault : LineFault} (hkey : settingKey text = .error fault) :
    ∃ fault', settingOf text = .error fault' := by
  cases text with
  | nil => exact ⟨_, rfl⟩
  | cons c text =>
      refine ⟨fault, ?_⟩
      simp only [settingOf, hkey]
      rfl

/-- What is missing of a value that is a literal, or of one that is not. -/
theorem settingValue_beginning_iff {value whole : List Char}
    (hwhole : settingValue (value ++ rest) = .ok whole) :
    (∀ value', settingValue value = .ok value' → whole = value') ↔
      rest = [] ∨ OpensLiteral value ∨ value = [] ∧ settingValue rest = .ok [] := by
  by_cases hopens : OpensLiteral value
  · have hne : value ≠ [] := by
      rintro rfl
      exact hopens.elim nofun nofun
    have hwhole' :=
      (settingValue_of_opensLiteral ((opensLiteral_append hne rest).2 hopens)).1 hwhole
    simp only [hopens, true_or, or_true, iff_true]
    intro value' hvalue
    -- A literal that is complete leaves no room for more behind it.
    have hmore := literal?_append ((settingValue_of_opensLiteral hopens).1 hvalue) rest
    rw [hwhole'] at hmore
    exact congrArg Prod.fst (Option.some.inj hmore)
  · rw [settingValue_of_not_opensLiteral hopens]
    simp only [hopens, false_or, Except.ok.injEq, forall_eq']
    by_cases hempty : value = []
    · subst hempty
      rw [List.nil_append] at hwhole
      simp only [true_and, hwhole, Except.ok.injEq]
      constructor
      · exact Or.inr
      · rintro (rfl | h)
        · exact (Except.ok.inj hwhole).symm
        · exact h
    · have hplain := settingValue_of_not_opensLiteral
        ((opensLiteral_append hempty rest).not.2 hopens)
      rw [hwhole] at hplain
      cases hplain
      simp [hempty]

/-- The beginning of a setting says no other setting exactly if its key is not complete, its value
is a literal, or nothing of its value is there and it has none. -/
theorem settingOf_beginning_iff {whole : Setting} (hwhole : settingOf (text ++ rest) = .ok whole) :
    (∀ s, settingOf text = .ok s → whole = s) ↔
      ∀ key value, settingKey text = .ok (key, value) →
        rest = [] ∨ OpensLiteral value ∨ value = [] ∧ settingValue rest = .ok [] := by
  cases hkey : settingKey text with
  | error fault =>
      obtain ⟨fault', hrefused⟩ := settingOf_of_key_error hkey
      simp [hrefused]
  | ok parts =>
      obtain ⟨key, value⟩ := parts
      rw [settingOf_eq_map (settingKey_append hkey rest)] at hwhole
      rw [settingOf_eq_map hkey]
      cases hvalue : settingValue (value ++ rest) with
      | error fault =>
          rw [hvalue] at hwhole
          cases hwhole
      | ok value' =>
          rw [hvalue] at hwhole
          cases hwhole
          have hbeginning := settingValue_beginning_iff hvalue
          constructor
          · rintro h _ _ ⟨⟩
            refine hbeginning.1 fun value'' hvalue'' => ?_
            have hsetting := h _ (congrArg (Except.map _) hvalue'')
            exact String.ofList_injective (congrArg Setting.value hsetting)
          · intro h s hs
            cases hvalue'' : settingValue value with
            | error fault =>
                rw [hvalue''] at hs
                cases hs
            | ok value'' =>
                rw [hvalue''] at hs
                cases hs
                rw [hbeginning.2 (h _ _ rfl) value'' hvalue'']

end GoImage.BuildInfo
