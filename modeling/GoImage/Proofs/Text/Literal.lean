import GoImage.Text.Literal
import GoImage.Text.Pieces
import Mathlib.Algebra.Ring.Nat
import Mathlib.Data.List.Induction

/-! # Literals that are written and read

A character can be written in more than one way between double quotes. Reading a literal undoes
each of them, and stops behind the closing quote. Nothing else is read as a literal. -/

namespace GoImage.Text

/-! ## Digits -/

/-- Whether digits to a base denote a number. -/
inductive Denotes (base : Nat) : List Char → Nat → Prop
  | nil : Denotes base [] 0
  | snoc {cs : List Char} {c : Char} {n d : Nat} (h : Denotes base cs n)
      (hc : hexDigit? c = some d) (hd : d < base) : Denotes base (cs ++ [c]) (base * n + d)

theorem denotes_nil_iff {base n : Nat} : Denotes base [] n ↔ n = 0 := by
  constructor
  · intro h
    generalize hcs : ([] : List Char) = cs at h
    cases h with
    | nil => rfl
    | snoc => simp at hcs
  · rintro rfl
    exact .nil

theorem denotes_append_singleton_iff {base n : Nat} {cs : List Char} {c : Char} :
    Denotes base (cs ++ [c]) n ↔
      ∃ m d, Denotes base cs m ∧ hexDigit? c = some d ∧ d < base ∧ n = base * m + d := by
  constructor
  · intro h
    generalize hcs : cs ++ [c] = cs' at h
    cases h with
    | nil => simp at hcs
    | @snoc cs' c' m d h hc hd =>
        obtain ⟨rfl, rfl⟩ := List.append_singleton_inj.1 hcs
        exact ⟨m, d, h, hc, hd, rfl⟩
  · rintro ⟨m, d, h, hc, hd, rfl⟩
    exact h.snoc hc hd

/-- So many digits of a number, in lower case. -/
def hexDigits : (count n : Nat) → List Char
  | 0, _ => []
  | count + 1, n => hexDigits count (n / 16) ++ [Nat.digitChar (n % 16)]

theorem length_hexDigits (count n : Nat) : (hexDigits count n).length = count := by
  induction count generalizing n with
  | zero => rfl
  | succ count ih => rw [hexDigits, List.length_append, ih, List.length_singleton]

theorem hexDigit?_digitChar : ∀ d < 16, hexDigit? (Nat.digitChar d) = some d := by
  decide

theorem denotes_hexDigits {count n : Nat} (h : n < 16 ^ count) :
    Denotes 16 (hexDigits count n) n := by
  induction count generalizing n with
  | zero =>
      obtain rfl : n = 0 := by simpa using h
      exact .nil
  | succ count ih =>
      have hmod : n % 16 < 16 := Nat.mod_lt n (by decide)
      have hdiv : n / 16 < 16 ^ count := by
        rw [Nat.pow_succ] at h
        exact Nat.div_lt_of_lt_mul (by omega)
      have hsnoc := (ih hdiv).snoc (hexDigit?_digitChar _ hmod) hmod
      rwa [Nat.div_add_mod] at hsnoc

theorem Denotes.digits?_append {base n : Nat} {cs : List Char} (h : Denotes base cs n)
    (rest : List Char) : digits? base cs.length (cs ++ rest) = some n := by
  induction h generalizing rest with
  | nil => simp [digits?]
  | @snoc cs c n d _ hc hd ih =>
      have hcs := ih []
      simp only [digits?, List.append_nil, Nat.lt_irrefl, ↓reduceIte, List.take_length] at hcs
      have hlength : ¬ (cs ++ [c] ++ rest).length < (cs ++ [c]).length := by simp
      rw [digits?, if_neg hlength, List.take_left, List.foldlM_append, hcs]
      simp [hc, hd]

theorem Denotes.exists_hexDigit? {base n : Nat} {cs : List Char} (h : Denotes base cs n) :
    ∀ c ∈ cs, ∃ d < base, hexDigit? c = some d := by
  induction h with
  | nil => exact fun _ hc => absurd hc List.not_mem_nil
  | @snoc _ _ _ d _ hc hd ih =>
      intro c' hc'
      rcases List.mem_append.1 hc' with hc' | hc'
      · exact ih c' hc'
      · obtain rfl := List.mem_singleton.1 hc'
        exact ⟨d, hd, hc⟩

/-! ## Spellings -/

/-- The letters of escapes for characters that cannot be seen. -/
def controlLetters : List (Char × Char) := [
  ('a', '\x07'), ('b', '\x08'), ('f', '\x0c'), ('n', '\n'), ('r', '\r'), ('t', '\t'),
  ('v', '\x0b')]

/-- The escapes of one character behind the backslash. -/
def letterEscapes : List (Char × Char) :=
  controlLetters ++ [('\\', '\\'), ('"', '"'), ('\'', '\'')]

/-- The ways to write a character between double quotes. -/
inductive Spells : Char → List Char → Prop
  | plain {c : Char} (hquote : c ≠ '"') (hbackslash : c ≠ '\\') (hline : c ≠ '\n') : Spells c [c]
  | letter {letter c : Char} (h : (letter, c) ∈ letterEscapes) : Spells c ['\\', letter]
  | hex {c marker : Char} {digits : List Char}
      (hcount : (marker, digits.length) ∈ [('x', 2), ('u', 4), ('U', 8)])
      (hdigits : Denotes 16 digits c.toNat) : Spells c ('\\' :: marker :: digits)
  | octal {c : Char} {digits : List Char} (hcount : digits.length = 3)
      (hdigits : Denotes 8 digits c.toNat) : Spells c ('\\' :: digits)

/-- No way to write a character breaks the line. -/
theorem Spells.newline_notMem {c : Char} {spelling : List Char} (h : Spells c spelling) :
    '\n' ∉ spelling := by
  have hdigits : ∀ {base n : Nat} {cs : List Char}, Denotes base cs n → '\n' ∉ cs := by
    intro base n cs hcs hline
    obtain ⟨d, -, hd⟩ := hcs.exists_hexDigit? _ hline
    cases hd
  cases h with
  | plain _ _ hline => simpa using Ne.symm hline
  | @letter letter _ h =>
      have hletter : ∀ p ∈ letterEscapes, p.1 ≠ '\n' := by decide
      simpa using Ne.symm (hletter _ h)
  | @hex _ marker digits hcount hcode =>
      have hmarker : ∀ p ∈ [('x', 2), ('u', 4), ('U', 8)], p.1 ≠ '\n' := by decide
      simpa using ⟨Ne.symm (hmarker _ hcount), hdigits hcode⟩
  | octal _ hcode => simpa using hdigits hcode

/-! ## Reading -/

theorem charOfCode?_toNat (c : Char) : charOfCode? c.toNat = some c :=
  (if_pos c.valid).trans (congrArg some (Char.ofNat_toNat c))

/-- No digit below eight is the letter of another escape. -/
theorem escape?_octal {c : Char} {d : Nat} (hc : hexDigit? c = some d) (hd : d < 8)
    (rest : List Char) :
    escape? (c :: rest) = ((digits? 8 3 (c :: rest)).bind charOfCode?).map (·, 3) := by
  simp only [escape?]
  split
  all_goals first
    | rfl
    | cases hc; done
    | cases hc; omega

theorem escape?_of_spells {c : Char} {escape : List Char} (h : Spells c ('\\' :: escape))
    (rest : List Char) : escape? (escape ++ rest) = some (c, escape.length) := by
  generalize hspelling : '\\' :: escape = spelling at h
  cases h with
  | plain _ hbackslash _ => cases hspelling; exact absurd rfl hbackslash
  | letter h =>
      cases hspelling
      simp only [letterEscapes, controlLetters, List.cons_append, List.nil_append, List.mem_cons,
        Prod.mk.injEq, List.not_mem_nil, or_false] at h
      rcases h with h | h | h | h | h | h | h | h | h | h <;> obtain ⟨rfl, rfl⟩ := h <;> rfl
  | @hex _ marker digits hcount hdigits =>
      cases hspelling
      have hread := hdigits.digits?_append rest
      simp only [List.mem_cons, Prod.mk.injEq, List.not_mem_nil, or_false] at hcount
      rcases hcount with ⟨rfl, hcount⟩ | ⟨rfl, hcount⟩ | ⟨rfl, hcount⟩ <;> rw [hcount] at hread <;>
        simp [escape?, hread, charOfCode?_toNat, hcount]
  | @octal _ digits hcount hdigits =>
      cases hspelling
      have hread := hdigits.digits?_append rest
      have hpos : 0 < escape.length := by omega
      obtain ⟨digit, digits, rfl⟩ := List.exists_cons_of_length_pos hpos
      obtain ⟨d, hd, hdigit⟩ := hdigits.exists_hexDigit? digit List.mem_cons_self
      rw [hcount] at hread ⊢
      rw [List.cons_append] at hread ⊢
      rw [escape?_octal hdigit hd, hread]
      simp [charOfCode?_toNat]

/-- A character is read from any of its spellings. -/
theorem interpreted?_of_spells {c : Char} {spelling : List Char} (h : Spells c spelling)
    (rest : List Char) :
    interpreted? (spelling ++ rest) =
      (interpreted? rest).map fun (text, rest) => (c :: text, rest) := by
  have hescape : ∀ {escape : List Char}, Spells c ('\\' :: escape) →
      interpreted? ('\\' :: escape ++ rest) =
        (interpreted? rest).map fun (text, rest) => (c :: text, rest) := by
    intro escape hspells
    rw [List.cons_append, interpreted?, escape?_of_spells hspells]
    simp
  cases h with
  | plain hquote hbackslash hline =>
      rw [List.singleton_append, interpreted?, if_neg hquote, if_neg hline, if_neg hbackslash]
  | letter h => exact hescape (.letter h)
  | hex hcount hdigits => exact hescape (.hex hcount hdigits)
  | octal hcount hdigits => exact hescape (.octal hcount hdigits)

/-- A literal gives back its characters, however each of them is written. -/
theorem interpreted?_spelled {items : List (Char × List Char)}
    (h : ∀ p ∈ items, Spells p.1 p.2) (rest : List Char) :
    interpreted? (items.flatMap (·.2) ++ '"' :: rest) = some (items.map (·.1), rest) := by
  induction items with
  | nil => simp [interpreted?]
  | cons p items ih =>
      have hrest := ih fun q hq => h q (List.mem_cons_of_mem p hq)
      rw [List.flatMap_cons, List.append_assoc, interpreted?_of_spells (h p List.mem_cons_self),
        hrest]
      rfl

/-! ## What is read -/

section Escapes

variable {base count n width width' : Nat} {c : Char} {cs digits : List Char}

theorem denotes_of_digits? (h : digits? base digits.length digits = some n) :
    Denotes base digits n := by
  simp only [digits?, Nat.lt_irrefl, ↓reduceIte, List.take_length] at h
  induction digits using List.reverseRecOn generalizing n with
  | nil =>
      cases h
      exact .nil
  | append_singleton digits c ih =>
      rw [List.foldlM_append] at h
      obtain ⟨m, hm, hc⟩ := Option.bind_eq_some_iff.1 h
      cases hd : hexDigit? c with
      | none => simp [hd] at hc
      | some d =>
          by_cases hlt : d < base
          · obtain rfl : base * m + d = n := by simpa [hd, hlt] using hc
            exact (ih hm).snoc hd hlt
          · simp [hd, hlt] at hc

theorem digits?_eq_some_iff :
    digits? base count cs = some n ↔
      ∃ digits rest, cs = digits ++ rest ∧ digits.length = count ∧ Denotes base digits n := by
  constructor
  · intro h
    by_cases hcount : cs.length < count
    · rw [digits?, if_pos hcount] at h
      cases h
    · rw [digits?, if_neg hcount] at h
      have hlength : (cs.take count).length = count :=
        List.length_take_of_le (Nat.not_lt.1 hcount)
      refine ⟨cs.take count, cs.drop count, (List.take_append_drop count cs).symm, hlength,
        denotes_of_digits? ?_⟩
      rwa [digits?, if_neg (Nat.lt_irrefl _), List.take_length]
  · rintro ⟨digits, rest, rfl, rfl, hdigits⟩
    exact hdigits.digits?_append rest

theorem charOfCode?_eq_some_iff {code : Nat} : charOfCode? code = some c ↔ c.toNat = code := by
  constructor
  · intro h
    unfold charOfCode? at h
    split at h
    next hvalid =>
      cases h
      rw [Char.ofNat, dif_pos hvalid]
      rfl
    next => cases h
  · rintro rfl
    exact charOfCode?_toNat c

/-- Digits that are read as a character are its code. -/
theorem code_eq_some_iff :
    ((digits? base count cs).bind charOfCode?).map (·, width) = some (c, width') ↔
      width = width' ∧ ∃ digits rest, cs = digits ++ rest ∧ digits.length = count ∧
        Denotes base digits c.toNat := by
  rw [← digits?_eq_some_iff]
  constructor
  · intro h
    obtain ⟨c', hc', hpair⟩ := Option.map_eq_some_iff.1 h
    obtain ⟨rfl, rfl⟩ := Prod.mk.inj hpair
    obtain ⟨code, hcode, hc⟩ := Option.bind_eq_some_iff.1 hc'
    exact ⟨rfl, charOfCode?_eq_some_iff.1 hc ▸ hcode⟩
  · rintro ⟨rfl, hdigits⟩
    rw [hdigits, Option.bind_some, charOfCode?_toNat]
    rfl

/-- An escape that is read is the spelling of a character. -/
theorem escape?_eq_some_iff :
    escape? cs = some (c, width) ↔
      ∃ escape rest, cs = escape ++ rest ∧ width = escape.length ∧ Spells c ('\\' :: escape) := by
  constructor
  · intro h
    cases cs with
    | nil => cases h
    | cons letter cs =>
        simp only [escape?] at h
        split at h
        case h_11 | h_12 | h_13 =>
          obtain ⟨rfl, digits, rest, rfl, hcount, hdigits⟩ := code_eq_some_iff.1 h
          exact ⟨_ :: digits, rest, rfl, by simp [hcount], .hex (by simp [hcount]) hdigits⟩
        case h_14 =>
          obtain ⟨rfl, digits, rest, hsplit, hcount, hdigits⟩ := code_eq_some_iff.1 h
          exact ⟨digits, rest, hsplit, hcount.symm, .octal hcount hdigits⟩
        all_goals
          cases h
          exact ⟨[_], cs, rfl, rfl, .letter (by decide)⟩
  · rintro ⟨escape, rest, rfl, rfl, hspells⟩
    exact escape?_of_spells hspells rest

end Escapes

/-! ## Literals -/

section Literals

variable {cs text rest literal : List Char}

theorem interpreted?_eq_some_iff :
    interpreted? cs = some (text, rest) ↔
      ∃ items : List (Char × List Char), (∀ p ∈ items, Spells p.1 p.2) ∧
        text = items.map (·.1) ∧ cs = items.flatMap (·.2) ++ '"' :: rest := by
  constructor
  · intro h
    fun_induction interpreted? cs generalizing text rest with
    | case1 => cases h
    | case2 cs =>
        cases h
        exact ⟨[], by simp, rfl, rfl⟩
    | case3 => cases h
    | case4 => cases h
    | case5 cs c width hescape hquote hline ih =>
        obtain ⟨⟨text', rest'⟩, hread, heq⟩ := Option.map_eq_some_iff.1 h
        cases heq
        obtain ⟨escape, behind, rfl, rfl, hspells⟩ := escape?_eq_some_iff.1 hescape
        rw [List.drop_left] at hread ih
        obtain ⟨items, hitems, rfl, rfl⟩ := ih hread
        exact ⟨(c, '\\' :: escape) :: items, List.forall_mem_cons.2 ⟨hspells, hitems⟩, rfl,
          by simp⟩
    | case6 c cs hquote hline hbackslash ih =>
        obtain ⟨⟨text', rest'⟩, hread, heq⟩ := Option.map_eq_some_iff.1 h
        cases heq
        obtain ⟨items, hitems, rfl, rfl⟩ := ih hread
        exact ⟨(c, [c]) :: items,
          List.forall_mem_cons.2 ⟨.plain hquote hbackslash hline, hitems⟩, rfl, by simp⟩
  · rintro ⟨items, hitems, rfl, rfl⟩
    exact interpreted?_spelled hitems rest

theorem raw?_eq_cut? (cs : List Char) : raw? cs = cut? backquote cs := by
  induction cs with
  | nil => rfl
  | cons c cs ih => rw [raw?, cut?, ih]

/-- A literal, and the text that it stands for. -/
inductive IsLiteral : List Char → List Char → Prop
  | interpreted {items : List (Char × List Char)} (h : ∀ p ∈ items, Spells p.1 p.2) :
      IsLiteral ('"' :: (items.flatMap (·.2) ++ ['"'])) (items.map (·.1))
  | raw {text : List Char} (h : backquote ∉ text) :
      IsLiteral (backquote :: (text ++ [backquote])) text

theorem IsLiteral.read (h : IsLiteral literal text) (rest : List Char) :
    literal? (literal ++ rest) = some (text, rest) := by
  cases h with
  | @interpreted items h =>
      rw [List.cons_append, literal?, if_pos rfl, List.append_assoc]
      exact interpreted?_spelled h rest
  | raw h =>
      rw [List.cons_append, literal?, if_neg (by decide), if_pos rfl, List.append_assoc,
        raw?_eq_cut?]
      exact cut?_eq_some_iff.2 ⟨rfl, h⟩

/-- What is read is one literal at the front of the text. -/
theorem literal?_eq_some_iff :
    literal? cs = some (text, rest) ↔ ∃ literal, IsLiteral literal text ∧ cs = literal ++ rest := by
  constructor
  · intro h
    cases cs with
    | nil => cases h
    | cons c cs =>
        rw [literal?] at h
        by_cases hquote : c = '"'
        · rw [if_pos hquote] at h
          obtain ⟨items, hitems, rfl, rfl⟩ := interpreted?_eq_some_iff.1 h
          exact ⟨_, .interpreted hitems, by simp [hquote]⟩
        rw [if_neg hquote] at h
        by_cases hback : c = backquote
        · rw [if_pos hback, raw?_eq_cut?] at h
          obtain ⟨rfl, htext⟩ := cut?_eq_some_iff.1 h
          exact ⟨_, .raw htext, by simp [hback]⟩
        · rw [if_neg hback] at h
          cases h
  · rintro ⟨literal, hliteral, rfl⟩
    exact hliteral.read rest

end Literals

/-! ## Quoting -/

section Quoting

variable {printable : Char → Bool}

/-- A character as quoting writes it: as it is where it can be printed, by its letter where it has
one, and by its code otherwise. -/
def quotedChar (printable : Char → Bool) (c : Char) : List Char :=
  if c = '"' ∨ c = '\\' then ['\\', c]
  else if printable c then [c]
  else
    match controlLetters.find? (·.2 = c) with
    | some (letter, _) => ['\\', letter]
    | none =>
      if c.toNat < 0x20 ∨ c.toNat = 0x7f then '\\' :: 'x' :: hexDigits 2 c.toNat
      else if c.toNat < 0x10000 then '\\' :: 'u' :: hexDigits 4 c.toNat
      else '\\' :: 'U' :: hexDigits 8 c.toNat

/-- A text as a literal between double quotes. -/
def quoted (printable : Char → Bool) (text : List Char) : List Char :=
  '"' :: (text.flatMap (quotedChar printable) ++ ['"'])

theorem spells_hexDigits {c marker : Char} {count : Nat}
    (hcount : (marker, count) ∈ [('x', 2), ('u', 4), ('U', 8)]) (hcode : c.toNat < 16 ^ count) :
    Spells c ('\\' :: marker :: hexDigits count c.toNat) :=
  .hex (by rwa [length_hexDigits]) (denotes_hexDigits hcode)

theorem spells_quotedChar (hline : printable '\n' = false) (c : Char) :
    Spells c (quotedChar printable c) := by
  have hcode : c.toNat < 16 ^ 8 := Nat.lt_of_lt_of_eq c.val.toNat_lt (by decide)
  unfold quotedChar
  split
  next hquote =>
    rcases hquote with rfl | rfl <;> exact .letter (by decide)
  next hquote =>
    obtain ⟨hquote, hbackslash⟩ := not_or.1 hquote
    split
    next hprintable =>
      refine .plain hquote hbackslash ?_
      rintro rfl
      rw [hline] at hprintable
      cases hprintable
    next =>
      split
      next letter c' hletter =>
        have hmem := List.mem_of_find?_eq_some hletter
        have hc : c' = c := by simpa using List.find?_some hletter
        subst hc
        exact .letter (List.mem_append_left _ hmem)
      next =>
        split
        next hsmall => exact spells_hexDigits (by decide) (by omega)
        next =>
          split
          next hshort => exact spells_hexDigits (by decide) hshort
          next => exact spells_hexDigits (by decide) hcode

theorem isLiteral_quoted (hline : printable '\n' = false) (text : List Char) :
    IsLiteral (quoted printable text) text := by
  have hspells : ∀ p ∈ text.map fun c => (c, quotedChar printable c), Spells p.1 p.2 := by
    intro p hp
    obtain ⟨c, -, rfl⟩ := List.mem_map.1 hp
    exact spells_quotedChar hline c
  have htext : (text.map fun c => (c, quotedChar printable c)).map (·.1) = text :=
    List.map_map.trans (List.map_id' text)
  have hliteral := IsLiteral.interpreted hspells
  rwa [htext, List.flatMap_map] at hliteral

/-- What is quoted is read back, up to the closing quote. -/
theorem literal?_quoted (hline : printable '\n' = false) (text rest : List Char) :
    literal? (quoted printable text ++ rest) = some (text, rest) :=
  (isLiteral_quoted hline text).read rest

theorem newline_notMem_quoted (hline : printable '\n' = false) (text : List Char) :
    '\n' ∉ quoted printable text := by
  simp only [quoted, List.mem_cons, List.mem_append, List.mem_flatMap, List.not_mem_nil, or_false,
    not_or, not_exists, not_and]
  exact ⟨by decide, fun c _ => (spells_quotedChar hline c).newline_notMem, by decide⟩

end Quoting

end GoImage.Text
