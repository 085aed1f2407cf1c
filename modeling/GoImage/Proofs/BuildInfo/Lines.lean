import GoImage.BuildInfo.Lines

/-! # Reading module information line by line

A line that is read leaves the rest to be read from what it has led to. What the lines say does not
depend on the release, which is no part of the text. -/

namespace GoImage.BuildInfo

variable {lines lines' : Lines} {line : List Char} {rest : List (List Char)}

theorem modify_length_append {α : Type} (l : List α) (a : α) (f : α → α) :
    (l ++ [a]).modify l.length f = l ++ [f a] := by
  induction l with
  | nil => rfl
  | cons b l ih => rw [List.cons_append, List.length_cons, List.modify_succ_cons, ih,
      List.cons_append]

/-! ## One line -/

theorem readLines_cons (hadd : lines.add (Line.of line) = .ok lines') :
    (readLines (line :: rest)).run lines = (readLines rest).run lines' := by
  cases line with
  | nil =>
      obtain rfl : lines = lines' := Except.ok.inj hadd
      rfl
  | cons c line =>
      rw [readLines]
      simp [hadd]

/-- A line that is refused changes nothing, and the reading ends there. -/
theorem readLines_cons_of_refused {fault : LineFault}
    (hadd : lines.add (Line.of line) = .error fault) (rest : List (List Char)) :
    (readLines (line :: rest)).run lines = .error (.line fault (String.ofList line)) lines := by
  cases line with
  | nil => cases hadd
  | cons c line =>
      rw [readLines]
      simp [hadd]

theorem exists_of_readLines_cons (h : (readLines (line :: rest)).run lines = .ok () lines') :
    ∃ next, lines.add (Line.of line) = .ok next ∧ (readLines rest).run next = .ok () lines' := by
  cases line with
  | nil => exact ⟨lines, rfl, h⟩
  | cons c line =>
      cases hadd : lines.add (Line.of (c :: line)) with
      | ok next => exact ⟨next, rfl, readLines_cons hadd ▸ h⟩
      | error fault =>
          rw [readLines] at h
          simp [hadd] at h

/-! ## The release -/

end GoImage.BuildInfo
