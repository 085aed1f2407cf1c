/-!
Parts of text: between separators, behind fixed beginnings and without blanks at the ends; and the
numbers that runs of digits denote.
-/

namespace GoImage.Text

/-- The pieces between separators, one more than there are separators. -/
def pieces (separator : Char) : List Char → List (List Char)
  | [] => [[]]
  | c :: rest =>
    if c = separator then [] :: pieces separator rest
    else
      match pieces separator rest with
      | piece :: more => (c :: piece) :: more
      | [] => [[c]]

/-- What follows a fixed beginning. -/
def after? : (beginning text : List Char) → Option (List Char)
  | [], text => some text
  | _ :: _, [] => none
  | b :: beginning, c :: text => if b = c then after? beginning text else none

/-- The text in front of the first separator and the text behind it. -/
def cut? (separator : Char) : List Char → Option (List Char × List Char)
  | [] => none
  | c :: rest =>
    if c = separator then some ([], rest)
    else (cut? separator rest).map fun (before, behind) => (c :: before, behind)

/-- The characters of the property White_Space. -/
def isBlank (c : Char) : Bool :=
  let n := c.toNat
  (9 ≤ n && n ≤ 13) || n == 0x20 || n == 0x85 || n == 0xa0 || n == 0x1680 ||
    (0x2000 ≤ n && n ≤ 0x200a) || n == 0x2028 || n == 0x2029 || n == 0x202f || n == 0x205f ||
    n == 0x3000

/-- Text without the blanks at its two ends. -/
def trimmed (cs : List Char) : List Char :=
  ((cs.dropWhile isBlank).reverse.dropWhile isBlank).reverse

/-- The number that decimal digits denote; `none` for no digits or any other character. -/
def decimal? (digits : List Char) : Option Nat :=
  if digits.isEmpty || !digits.all Char.isDigit then none
  else some (digits.foldl (fun n c => 10 * n + (c.toNat - '0'.toNat)) 0)

theorem pieces_ne_nil (separator : Char) (text : List Char) : pieces separator text ≠ [] := by
  cases text with
  | nil => simp [pieces]
  | cons c rest =>
      by_cases h : c = separator
      · simp [pieces, h]
      · simp only [pieces, h, if_false]
        split <;> simp

theorem pieces_eq_singleton {separator : Char} {text : List Char} (h : separator ∉ text) :
    pieces separator text = [text] := by
  induction text with
  | nil => rfl
  | cons c rest ih =>
      simp only [List.mem_cons, not_or] at h
      simp [pieces, Ne.symm h.1, ih h.2]

theorem pieces_append {separator : Char} {text : List Char} (h : separator ∉ text)
    (rest : List Char) :
    pieces separator (text ++ separator :: rest) = text :: pieces separator rest := by
  induction text with
  | nil => simp [pieces]
  | cons c text ih =>
      simp only [List.mem_cons, not_or] at h
      simp [pieces, Ne.symm h.1, ih h.2]

theorem after?_eq_some_iff {beginning text rest : List Char} :
    after? beginning text = some rest ↔ text = beginning ++ rest := by
  induction beginning generalizing text with
  | nil => simp [after?]
  | cons b beginning ih =>
      cases text with
      | nil => simp [after?]
      | cons c text =>
          by_cases h : b = c
          · simp [after?, h, ih]
          · simp [after?, h, Ne.symm h]

theorem cut?_eq_some_iff {separator : Char} {text before behind : List Char} :
    cut? separator text = some (before, behind) ↔
      text = before ++ separator :: behind ∧ separator ∉ before := by
  induction text generalizing before with
  | nil => simp [cut?]
  | cons c rest ih =>
      by_cases h : c = separator
      · cases before with
        | nil => simp [cut?, h]
        | cons b before => simp [cut?, h]; grind
      · cases before with
        | nil => simp [cut?, h]
        | cons b before =>
            simp only [cut?, h, if_false, Option.map_eq_some_iff, Prod.mk.injEq, Prod.exists,
              List.cons.injEq, List.cons_append, List.mem_cons, not_or]
            grind

end GoImage.Text
