import GoImage.Proofs.TypeInfo.CutOrder
import GoImage.Proofs.TypeInfo.History
import GoImage.Proofs.TypeInfo.Nesting

/-! # Declarations come to an end

No type is written inside of itself, and none deeper than the limit, so that a declaration comes to
an end whatever the descriptors refer to. Behind it no type counts as being written, and its text is
empty for what cannot be read and for nothing else. -/

namespace GoImage

theorem beginsFuller_backReferenceText (va : Nat) :
    beginsFuller (backReferenceText va).toList = false := by
  unfold backReferenceText
  rw [String.toList_append, String.toList_append]
  rfl

namespace Catalogue

variable {read : Nat → Except Error Descriptor} {c : Catalogue} {va : Nat}

/-- A type that is not being written is never cut where there is room for it. -/
theorem beginsFuller_reference (hc : Sound read c) (hva : Unnamed read va)
    (hprogress : va ∉ c.inProgress) (room : Nat) :
    beginsFuller ((reference read (room + 1) va).run c).1.toList = true := by
  cases referenceCase read c (room + 1) va with
  | known hknown =>
      obtain ⟨text, htext, hrun⟩ := reference_of_known hc (room + 1) hknown
      obtain ⟨d, hread, hd⟩ := hva
      rw [plainReference_of_unnamed hread hd] at htext
      rw [hrun]
      exact beginsFuller_literal htext
  | cut _ _ hcut => exact absurd (hcut.resolve_left (Nat.succ_ne_zero room)) hprogress
  | @written _ d hread hd hrendered _ =>
      obtain ⟨_, x, f, hliteral, hbegins⟩ :=
        exists_literal_eq_map (spelling read (reference read room)) d
      rw [reference_of_written hc hread hd hrendered hprogress, hliteral]
      exact hbegins _

/-- The declaration of a type that can be read begins in a way in which no cut reference does. -/
theorem beginsFuller_declaration (hc : Sound read c) (hprogress : c.inProgress = [])
    {d : Descriptor} (hread : read va = .ok d) :
    beginsFuller ((declaration read va).run c).1.toList = true := by
  cases hd : d.isNamed with
  | true =>
      rw [declaration_of_named hc hread hd]
      dsimp only
      rw [String.append_assoc, String.append_assoc]
      exact beginsFuller_append_text rfl _
  | false =>
      have hnone : va ∉ (c.remember read va).inProgress := by
        rw [(hc.sameTexts_remember va).inProgress, hprogress]
        exact List.not_mem_nil
      rw [declaration_of_unnamed hc hread hd]
      exact beginsFuller_reference (hc.remember va) ⟨d, hread, hd⟩ hnone (maxDepth - 1)

/-- Nothing but what cannot be read is declared with an empty text. -/
theorem declaration_eq_empty_iff (hc : Sound read c) (hprogress : c.inProgress = []) (va : Nat) :
    ((declaration read va).run c).1 = "" ↔ ∃ e, read va = .error e := by
  constructor
  · intro h
    cases hread : read va with
    | error e => exact ⟨e, rfl⟩
    | ok d =>
        have hbegins := beginsFuller_declaration hc hprogress hread
        rw [h] at hbegins
        cases hbegins
  · rintro ⟨e, hread⟩
    rw [declaration_of_error hc hread]

/-- No declaration is just a cut reference. -/
theorem declaration_ne_backReferenceText (hc : Sound read c) (hprogress : c.inProgress = [])
    (va target : Nat) : ((declaration read va).run c).1 ≠ backReferenceText target := by
  intro h
  cases hread : read va with
  | error e =>
      rw [(declaration_eq_empty_iff hc hprogress va).2 ⟨e, hread⟩] at h
      exact absurd h.symm (by simp [backReferenceText])
  | ok d =>
      have hbegins := beginsFuller_declaration hc hprogress hread
      rw [h, beginsFuller_backReferenceText] at hbegins
      cases hbegins

/-- A type that is written out in a declaration is not deep in it, and not inside of itself. -/
theorem notMem_of_standsIn_written (hc : Sound read c) (hprogress : c.inProgress = [])
    {path : List Nat} {inner : Nat} {text : String} {parts : List Writing}
    (h : (Writing.written inner text parts).StandsIn path (declarationWriting read va c)) :
    path.length < maxDepth ∧ inner ∉ path := by
  rcases exists_of_standsIn_declaration hc hprogress h with h | h
  · obtain ⟨rfl, -, -⟩ := h
    exact ⟨by decide, List.not_mem_nil⟩
  · obtain ⟨room, va', c', hc', hroom, hpath, hpart, -⟩ := h
    have hcase := writingCase hc' room va'
    rw [← hpart] at hcase
    cases hcase with
    | written _ _ _ hinner => exact ⟨by omega, hpath ▸ hinner⟩

/-- Whatever was asked before: the types that are written out in a declaration stand inside of fewer
others than the depth limit, and none inside of itself; behind it no type is being written; its text
is empty if and only if the type cannot be read, and never just a cut reference. -/
theorem declaration_finishes_after (r : TypeReader) (m : ModuleData) (history : List Operation)
    (va : Nat) :
    let c := after r m history
    let run := (declaration r.read va).run c
    let w := declarationWriting r.read va c
    w.text = run.1 ∧
    (∀ path inner text parts, (Writing.written inner text parts).StandsIn path w →
      path.length < maxDepth ∧ inner ∉ path) ∧
    run.2.inProgress = [] ∧
    (run.1 = "" ↔ ∃ e, r.read va = .error e) ∧
    ∀ target, run.1 ≠ backReferenceText target := by
  intro c run w
  have hc : Sound r.read c := sound_after r m history
  have hprogress : c.inProgress = [] := inProgress_after r m history
  exact ⟨text_declarationWriting hc va,
    fun path inner text parts => notMem_of_standsIn_written hc hprogress,
    (Keeps.declaration va c hc).inProgress.trans hprogress,
    declaration_eq_empty_iff hc hprogress va, declaration_ne_backReferenceText hc hprogress va⟩

end Catalogue
end GoImage
