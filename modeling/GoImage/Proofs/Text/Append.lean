import GoImage.Proofs.Text.Literal
import GoImage.Text.Pieces

/-! # Texts with more behind them

More text behind a text goes on with its last piece. It changes neither where the text is cut nor a
literal at its front, so that no literal is the beginning of another one. -/

namespace GoImage.Text

variable {separator : Char}

/-! ## Pieces -/

theorem length_pieces (separator : Char) (text : List Char) :
    (pieces separator text).length = text.count separator + 1 := by
  induction text with
  | nil => rfl
  | cons c rest ih =>
      by_cases h : c = separator
      · simp [pieces, h, ih]
      · simp only [pieces, h, if_false]
        cases hrest : pieces separator rest with
        | nil => exact absurd hrest (pieces_ne_nil separator rest)
        | cons piece more =>
            rw [hrest] at ih
            simpa [List.count_cons, h] using ih

/-- A text of one empty piece is empty, and one of two is the separator. -/
theorem pieces_eq_nil_iff {text : List Char} : pieces separator text = [[]] ↔ text = [] := by
  cases text with
  | nil => simp [pieces]
  | cons c rest =>
      by_cases h : c = separator
      · simp [pieces, h, pieces_ne_nil]
      · simp only [pieces, h, if_false]
        split <;> simp

theorem pieces_eq_nil_nil_iff {text : List Char} :
    pieces separator text = [[], []] ↔ text = [separator] := by
  cases text with
  | nil => simp [pieces]
  | cons c rest =>
      by_cases h : c = separator
      · simp [pieces, h, pieces_eq_nil_iff]
      · simp only [pieces, h, if_false]
        split <;> simp [h]

/-- The last piece of a text and the first one of another become one piece. -/
theorem exists_pieces_append (separator : Char) (text more : List Char) :
    ∃ front last first rest, pieces separator text = front ++ [last] ∧
      pieces separator more = first :: rest ∧
      pieces separator (text ++ more) = front ++ (last ++ first) :: rest := by
  obtain ⟨first, rest, hmore⟩ := List.exists_cons_of_ne_nil (pieces_ne_nil separator more)
  induction text with
  | nil => exact ⟨[], [], first, rest, rfl, hmore, hmore⟩
  | cons c text ih =>
      obtain ⟨front, last, _, _, htext, hmore', happend⟩ := ih
      obtain ⟨rfl, rfl⟩ := List.cons.inj (hmore.symm.trans hmore')
      by_cases h : c = separator
      · exact ⟨[] :: front, last, first, rest, by simp [pieces, h, htext], hmore,
          by simp [pieces, h, happend]⟩
      · cases front with
        | nil =>
            exact ⟨[], c :: last, first, rest, by simp [pieces, h, htext], hmore,
              by simp [pieces, h, happend]⟩
        | cons piece front =>
            exact ⟨(c :: piece) :: front, last, first, rest, by simp [pieces, h, htext], hmore,
              by simp [pieces, h, happend]⟩

/-- A separator between two texts keeps their pieces apart. -/
theorem pieces_append_cons (separator : Char) (text more : List Char) :
    pieces separator (text ++ separator :: more) =
      pieces separator text ++ pieces separator more := by
  obtain ⟨front, last, first, rest, htext, hmore, hboth⟩ :=
    exists_pieces_append separator text (separator :: more)
  rw [pieces, if_pos rfl] at hmore
  obtain ⟨rfl, rfl⟩ := List.cons.inj hmore
  rw [hboth, htext, List.append_nil, List.append_assoc, List.singleton_append]

theorem cut?_append {text before behind : List Char}
    (h : cut? separator text = some (before, behind)) (more : List Char) :
    cut? separator (text ++ more) = some (before, behind ++ more) := by
  obtain ⟨rfl, hbefore⟩ := cut?_eq_some_iff.1 h
  exact cut?_eq_some_iff.2 ⟨by simp, hbefore⟩

/-! ## Literals -/

section Literals

variable {cs literal text rest : List Char}

theorem literal?_append (h : literal? cs = some (text, rest)) (more : List Char) :
    literal? (cs ++ more) = some (text, rest ++ more) := by
  obtain ⟨literal, hliteral, rfl⟩ := literal?_eq_some_iff.1 h
  rw [List.append_assoc]
  exact hliteral.read (rest ++ more)

/-- No beginning of a literal is read as one, apart from the whole of it. -/
theorem IsLiteral.read_cut {more : List Char} (h : IsLiteral (literal ++ more) text)
    (hmore : more ≠ []) : literal? literal = none := by
  by_contra hsome
  obtain ⟨⟨text', rest⟩, hread⟩ := Option.ne_none_iff_exists'.1 hsome
  -- The longer text would be read with the same end, in front of `more`.
  have hlong := literal?_append hread more
  have hwhole := h.read []
  rw [List.append_nil, hlong] at hwhole
  obtain ⟨-, hnil⟩ := Prod.mk.inj (Option.some.inj hwhole)
  exact hmore (List.append_eq_nil_iff.1 hnil).2

end Literals

end GoImage.Text
