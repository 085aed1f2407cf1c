import GoImage.Proofs.Text.Literal
import GoImage.Release
import Mathlib.Data.List.Induction
import Mathlib.Data.List.TakeWhile

/-! # Which names are release names

A release name is a grammar: blanks, at most one `go`, `1.`, decimal digits, and any text that does
not go on with a digit. Reading a name finds exactly the minor release that the grammar gives it.
Later releases write later layouts. -/

namespace GoImage

/-! ## Longest beginnings -/

section Longest

variable {α : Type*} {p : α → Bool} {xs front rest : List α}

/-- A list is cut behind its longest beginning with a property. -/
structure CutsBehind (p : α → Bool) (xs front rest : List α) : Prop where
  split : xs = front ++ rest
  all : ∀ x ∈ front, p x = true
  stop : ∀ x ∈ rest.head?, p x = false

theorem cutsBehind_takeWhile (p : α → Bool) (xs : List α) :
    CutsBehind p xs (xs.takeWhile p) (xs.dropWhile p) where
  split := List.takeWhile_append_dropWhile.symm
  all _ hx := List.mem_takeWhile_imp hx
  stop x hx := by
    have hhead := List.head?_dropWhile_not p xs
    rw [Option.mem_def.1 hx] at hhead
    exact hhead

namespace CutsBehind

theorem takeWhile_rest (h : CutsBehind p xs front rest) : rest.takeWhile p = [] := by
  cases rest with
  | nil => rfl
  | cons x rest => exact List.takeWhile_cons_of_neg (by simp [h.stop x rfl])

theorem takeWhile_eq (h : CutsBehind p xs front rest) : xs.takeWhile p = front := by
  rw [h.split, List.takeWhile_append_of_pos h.all, h.takeWhile_rest, List.append_nil]

theorem dropWhile_eq (h : CutsBehind p xs front rest) : xs.dropWhile p = rest := by
  have hsplit := List.takeWhile_append_dropWhile (p := p) (l := xs)
  rw [h.takeWhile_eq, h.split] at hsplit
  rw [h.split]
  exact List.append_cancel_left hsplit

end CutsBehind

end Longest

/-! ## Blanks at the ends -/

namespace Text

variable {cs core before behind : List Char}

def AllBlank (cs : List Char) : Prop :=
  ∀ c ∈ cs, isBlank c = true

instance (cs : List Char) : Decidable (AllBlank cs) :=
  decidable_of_iff (cs.all isBlank = true) List.all_eq_true

/-- What is left of a text without the blanks at its two ends. -/
structure Trims (cs core : List Char) : Prop where
  around : ∃ before behind, cs = before ++ core ++ behind ∧ AllBlank before ∧ AllBlank behind
  front : ∀ c ∈ core.head?, isBlank c = false
  back : ∀ c ∈ core.getLast?, isBlank c = false

/-- The blanks at the end of a text, behind what is kept. -/
theorem exists_blanks_behind (cs : List Char) :
    ∃ blanks, cs = (cs.reverse.dropWhile isBlank).reverse ++ blanks ∧ AllBlank blanks ∧
      ∀ c ∈ (cs.reverse.dropWhile isBlank).reverse.getLast?, isBlank c = false := by
  have hcut := cutsBehind_takeWhile isBlank cs.reverse
  refine ⟨(cs.reverse.takeWhile isBlank).reverse, ?_, ?_, ?_⟩
  · rw [← List.reverse_append, ← hcut.split, List.reverse_reverse]
  · exact fun c hc => hcut.all c (List.mem_reverse.1 hc)
  · intro c hc
    rw [List.getLast?_reverse] at hc
    exact hcut.stop c hc

theorem trims_trimmed (cs : List Char) : Trims cs (trimmed cs) := by
  have hfront := cutsBehind_takeWhile isBlank cs
  obtain ⟨behind, hsplit, hbehind, hback⟩ := exists_blanks_behind (cs.dropWhile isBlank)
  refine ⟨⟨cs.takeWhile isBlank, behind, ?_, hfront.all, hbehind⟩, ?_, hback⟩
  · rw [List.append_assoc, trimmed, ← hsplit]
    exact hfront.split
  · intro c hc
    refine hfront.stop c ?_
    rw [hsplit, List.head?_append]
    exact Option.or_eq_some_iff.2 (.inl hc)

theorem AllBlank.dropWhile_eq (h : AllBlank cs) : cs.dropWhile isBlank = [] :=
  List.dropWhile_eq_nil_iff.2 h

/-- Blanks around a text do not matter, and a text without any is left as it is. -/
theorem Trims.trimmed_eq (h : Trims cs core) : trimmed cs = core := by
  obtain ⟨before, behind, rfl, hbefore, hbehind⟩ := h.around
  have hback : CutsBehind isBlank (core ++ behind).reverse behind.reverse core.reverse :=
    ⟨List.reverse_append, fun c hc => hbehind c (List.mem_reverse.1 hc), fun c hc =>
      h.back c (List.head?_reverse ▸ hc)⟩
  rw [trimmed, List.append_assoc, List.dropWhile_append_of_pos hbefore]
  cases hcore : core with
  -- Without anything but blanks the first pass takes all of them, from either side.
  | nil => rw [List.nil_append, hbehind.dropWhile_eq]; rfl
  | cons c rest =>
      have hc : isBlank c = false := h.front c (hcore ▸ rfl)
      rw [List.cons_append, List.dropWhile_cons_of_neg (by simp [hc]), ← List.cons_append,
        ← hcore, hback.dropWhile_eq, List.reverse_reverse]

theorem trimmed_eq_iff : trimmed cs = core ↔ Trims cs core :=
  ⟨fun h => h ▸ trims_trimmed cs, Trims.trimmed_eq⟩

theorem Trims.wrap (h : Trims cs core) (hbefore : AllBlank before) (hbehind : AllBlank behind) :
    Trims (before ++ cs ++ behind) core := by
  obtain ⟨before', behind', rfl, hbefore', hbehind'⟩ := h.around
  exact ⟨⟨before ++ before', behind' ++ behind, by simp,
    List.forall_mem_append.2 ⟨hbefore, hbefore'⟩, List.forall_mem_append.2 ⟨hbehind', hbehind⟩⟩,
    h.front, h.back⟩

/-- More blanks around a text do not matter. -/
theorem trimmed_wrap (hbefore : AllBlank before) (hbehind : AllBlank behind) (cs : List Char) :
    trimmed (before ++ cs ++ behind) = trimmed cs :=
  trimmed_eq_iff.2 ((trims_trimmed cs).wrap hbefore hbehind)

/-- Only the end of a text can lose characters where no blank stands in front. -/
theorem exists_trims {solid : List Char} (hne : solid ≠ [])
    (hsolid : ∀ c ∈ solid, isBlank c = false) (cs : List Char) :
    ∃ kept blanks, cs = kept ++ blanks ∧ Trims (solid ++ cs) (solid ++ kept) := by
  obtain ⟨blanks, hsplit, hblanks, hback⟩ := exists_blanks_behind cs
  refine ⟨_, blanks, hsplit, ⟨[], blanks, ?_, by simp [AllBlank], hblanks⟩, ?_, ?_⟩
  · rw [List.nil_append, List.append_assoc, ← hsplit]
  · intro c hc
    rw [List.head?_append, List.head?_eq_some_head hne] at hc
    cases hc
    exact hsolid _ (List.head_mem hne)
  · intro c hc
    rw [List.getLast?_append] at hc
    rcases Option.or_eq_some_iff.1 hc with hc | ⟨-, hc⟩
    · exact hback c hc
    · exact hsolid c (List.mem_of_getLast? hc)

theorem isBlank_of_isDigit {c : Char} (h : c.isDigit = true) : isBlank c = false := by
  have hle : 48 ≤ c.toNat ∧ c.toNat ≤ 57 := by
    simpa [Char.isDigit, UInt32.le_iff_toNat_le] using h
  simp [isBlank]
  omega

/-! ## Decimal numbers -/

theorem hexDigit?_lt_ten_iff {c : Char} {d : Nat} :
    hexDigit? c = some d ∧ d < 10 ↔ c.isDigit = true ∧ d = c.toNat - '0'.toNat := by
  unfold hexDigit?
  split
  next hc =>
    have hle : c.toNat ≤ '9'.toNat := by
      simp only [Char.isDigit, Bool.and_eq_true, decide_eq_true_eq] at hc
      exact hc.2
    have hnine : '9'.toNat = 57 := rfl
    have hzero : '0'.toNat = 48 := rfl
    simp only [Option.some.injEq, hc, true_and]
    omega
  next hc =>
    have hcontra : ¬ c.isDigit = true := hc
    simp only [hcontra, false_and, iff_false, not_and, Bool.false_eq_true]
    split
    · intro h; cases h; omega
    · split
      · intro h; cases h; omega
      · intro h; cases h

/-- Decimal digits denote the number that their values make up, place by place. -/
theorem denotes_decimal_iff {digits : List Char} {n : Nat} :
    Denotes 10 digits n ↔ digits.all Char.isDigit = true ∧
      digits.foldl (fun n c => 10 * n + (c.toNat - '0'.toNat)) 0 = n := by
  induction digits using List.reverseRecOn generalizing n with
  | nil => simp [denotes_nil_iff, eq_comm]
  | append_singleton digits c ih =>
      rw [denotes_append_singleton_iff, List.all_append, List.foldl_append, Bool.and_eq_true]
      constructor
      · rintro ⟨m, d, h, hc, hd, rfl⟩
        obtain ⟨hall, rfl⟩ := ih.1 h
        obtain ⟨hdigit, rfl⟩ := hexDigit?_lt_ten_iff.1 ⟨hc, hd⟩
        exact ⟨⟨hall, by simpa using hdigit⟩, rfl⟩
      · rintro ⟨⟨hall, hdigit⟩, rfl⟩
        obtain ⟨hc, hd⟩ := hexDigit?_lt_ten_iff.2 ⟨by simpa using hdigit, rfl⟩
        exact ⟨_, _, ih.2 ⟨hall, rfl⟩, hc, hd, rfl⟩

theorem Denotes.isDigit {digits : List Char} {n : Nat} (h : Denotes 10 digits n) :
    ∀ c ∈ digits, c.isDigit = true :=
  List.all_eq_true.1 (denotes_decimal_iff.1 h).1

theorem decimal?_eq_some_iff {digits : List Char} {n : Nat} :
    decimal? digits = some n ↔ digits ≠ [] ∧ Denotes 10 digits n := by
  rw [denotes_decimal_iff, decimal?]
  cases digits.all Char.isDigit with
  | false => simp
  | true => simp

end Text

/-! ## The grammar of release names -/

open Text

/-- A name without blanks at its ends and without one `go` in front. -/
inductive Strips (name number : List Char) : Prop
  | go (h : Trims name ('g' :: 'o' :: number))
  | bare (h : Trims name number) (hgo : ¬ ['g', 'o'] <+: number)

/-- A number that states a minor release: its digits stand behind `1.`, and what follows them does
not go on with a digit. -/
def StatesMinor (number : List Char) (n : Nat) : Prop :=
  ∃ digits suffix, number = '1' :: '.' :: (digits ++ suffix) ∧ digits ≠ [] ∧
    Denotes 10 digits n ∧ n < 2 ^ 32 ∧ ∀ c ∈ suffix.head?, c.isDigit = false

/-- A name is the name of a minor release. -/
def NamesMinor (name : String) (n : Nat) : Prop :=
  ∃ number, Strips name.toList number ∧ StatesMinor number n

theorem releaseNumber_eq_iff {name number : List Char} :
    releaseNumber name = number ↔ Strips name number := by
  constructor
  · rintro rfl
    have htrims := trims_trimmed name
    unfold releaseNumber
    dsimp only
    split
    next rest hname => exact .go (hname ▸ htrims)
    next hname => exact .bare htrims fun ⟨rest, hrest⟩ => hname rest hrest.symm
  · intro h
    cases h with
    | go h =>
        rw [releaseNumber, h.trimmed_eq]
        rfl
    | bare h hgo =>
        rw [releaseNumber, h.trimmed_eq]
        split
        next rest => exact absurd ⟨rest, rfl⟩ hgo
        next => rfl

/-- The digits behind `1.` are all that a number states. -/
theorem statesMinor_iff {rest : List Char} {n : Nat} :
    StatesMinor ('1' :: '.' :: rest) n ↔
      decimal? (rest.takeWhile Char.isDigit) = some n ∧ n < 2 ^ 32 := by
  rw [decimal?_eq_some_iff]
  constructor
  · rintro ⟨digits, suffix, hrest, hne, hdigits, hbits, hsuffix⟩
    obtain rfl : rest = digits ++ suffix := by simpa using hrest
    have hcut : CutsBehind Char.isDigit (digits ++ suffix) digits suffix :=
      ⟨rfl, hdigits.isDigit, hsuffix⟩
    rw [hcut.takeWhile_eq]
    exact ⟨⟨hne, hdigits⟩, hbits⟩
  · rintro ⟨⟨hne, hdigits⟩, hbits⟩
    have hcut := cutsBehind_takeWhile Char.isDigit rest
    exact ⟨_, _, congrArg ('1' :: '.' :: ·) hcut.split, hne, hdigits, hbits, hcut.stop⟩

theorem namesMinor_iff {name : String} {n : Nat} :
    NamesMinor name n ↔ StatesMinor (releaseNumber name.toList) n := by
  simp [NamesMinor, ← releaseNumber_eq_iff]

/-- The minor release of a name is the one that the grammar gives it. -/
theorem minorRelease?_eq_some_iff {name : String} {n : Nat} :
    minorRelease? name = some n ↔ NamesMinor name n := by
  rw [namesMinor_iff, minorRelease?]
  generalize releaseNumber name.toList = number
  split
  next rest =>
    rw [statesMinor_iff]
    cases decimal? (rest.takeWhile Char.isDigit) with
    | none => simp
    | some m =>
        simp only [Option.ite_none_right_eq_some, Option.some.injEq]
        constructor
        · rintro ⟨hbits, rfl⟩
          exact ⟨rfl, hbits⟩
        · rintro ⟨rfl, hbits⟩
          exact ⟨hbits, rfl⟩
  next hnumber =>
    simp only [reduceCtorEq, false_iff]
    rintro ⟨digits, suffix, rfl, -⟩
    exact hnumber _ rfl

/-! ## Layouts of releases -/

theorem minorRelease?_wrap {before behind : String} (hbefore : AllBlank before.toList)
    (hbehind : AllBlank behind.toList) (name : String) :
    minorRelease? (before ++ name ++ behind) = minorRelease? name := by
  rw [minorRelease?, minorRelease?, releaseNumber, releaseNumber, String.toList_append,
    String.toList_append, trimmed_wrap hbefore hbehind]

/-- What stands behind the digits of a name does not matter, nor whether `go` stands in front. -/
theorem namesMinor_append_iff {go digits suffix : String} {n : Nat} (hgo : go ∈ ["", "go"])
    (hdigits : ∀ c ∈ digits.toList, c.isDigit = true)
    (hsuffix : ∀ c ∈ suffix.toList.head?, c.isDigit = false) :
    NamesMinor (go ++ "1." ++ digits ++ suffix) n ↔
      decimal? digits.toList = some n ∧ n < 2 ^ 32 := by
  simp only [List.mem_cons, List.not_mem_nil, or_false] at hgo
  have hsolid : ∀ c ∈ go.toList ++ '1' :: '.' :: digits.toList, isBlank c = false := by
    have hletters : ∀ c ∈ ['g', 'o', '1', '.'], isBlank c = false := by simp [isBlank]
    intro c hc
    by_cases hdigit : c ∈ digits.toList
    · exact isBlank_of_isDigit (hdigits c hdigit)
    · refine hletters c ?_
      rcases hgo with rfl | rfl <;> simp_all
  -- Trimming may shorten the suffix, but what is kept of it still does not start with a digit.
  obtain ⟨kept, blanks, hkept, htrims⟩ := exists_trims (by simp) hsolid suffix.toList
  have hname : releaseNumber (go ++ "1." ++ digits ++ suffix).toList =
      '1' :: '.' :: (digits.toList ++ kept) := by
    rw [releaseNumber_eq_iff]
    simp only [String.toList_append, List.append_assoc] at htrims ⊢
    rcases hgo with rfl | rfl
    · exact .bare htrims (by simp)
    · exact .go htrims
  have hcut : CutsBehind Char.isDigit (digits.toList ++ kept) digits.toList kept := by
    refine ⟨rfl, hdigits, fun c hc => hsuffix c ?_⟩
    rw [hkept, List.head?_append, Option.mem_def.1 hc]
    rfl
  rw [namesMinor_iff, hname, statesMinor_iff, hcut.takeWhile_eq]

theorem minorRelease?_append {go digits suffix : String} (hgo : go ∈ ["", "go"])
    (hdigits : ∀ c ∈ digits.toList, c.isDigit = true)
    (hsuffix : ∀ c ∈ suffix.toList.head?, c.isDigit = false) :
    minorRelease? (go ++ "1." ++ digits ++ suffix) = minorRelease? ("1." ++ digits) := by
  have hbare : "1." ++ digits = "" ++ "1." ++ digits ++ "" := by simp
  rw [hbare]
  ext n
  rw [minorRelease?_eq_some_iff, minorRelease?_eq_some_iff,
    namesMinor_append_iff hgo hdigits hsuffix,
    namesMinor_append_iff List.mem_cons_self hdigits (by simp)]

namespace Layout

/-- Layouts are in the order in which releases introduced them. -/
instance : LE Layout where
  le older newer := older.ctorIdx ≤ newer.ctorIdx

instance (older newer : Layout) : Decidable (older ≤ newer) :=
  inferInstanceAs (Decidable (older.ctorIdx ≤ newer.ctorIdx))

/-- The first minor release that is read with the layout. -/
def firstMinor : Layout → Nat
  | go1_2 => 9
  | go1_16 => 16
  | go1_18 => 18
  | go1_20 => 20

theorem le_iff_firstMinor_le {older newer : Layout} :
    older ≤ newer ↔ older.firstMinor ≤ newer.firstMinor := by
  cases older <;> cases newer <;> decide

/-- A minor release has the last layout that it is not too early for. -/
theorem ofMinor_eq_ok_iff {n : Nat} {layout : Layout} :
    ofMinor n = .ok layout ↔
      layout.firstMinor ≤ n ∧ ∀ newer : Layout, newer.firstMinor ≤ n → newer ≤ layout := by
  have hnewest : (∀ newer : Layout, newer.firstMinor ≤ n → newer ≤ layout) ↔
      (9 ≤ n → go1_2 ≤ layout) ∧ (16 ≤ n → go1_16 ≤ layout) ∧ (18 ≤ n → go1_18 ≤ layout) ∧
        (20 ≤ n → go1_20 ≤ layout) :=
    ⟨fun h => ⟨h .go1_2, h .go1_16, h .go1_18, h .go1_20⟩, fun ⟨h9, h16, h18, h20⟩ newer => by
      cases newer <;> assumption⟩
  rw [hnewest]
  unfold ofMinor ofMinor?
  simp only [le_iff_firstMinor_le]
  cases layout <;> simp only [firstMinor] <;> split_ifs <;> simp <;> omega

theorem ofMinor_of_lt {n : Nat} (h : n < 9) : ofMinor n = .error .unknownVersion := by
  rw [ofMinor, ofMinor?, if_pos h]

theorem exists_ofMinor {n : Nat} (h : 9 ≤ n) : ∃ layout, ofMinor n = .ok layout := by
  unfold ofMinor ofMinor?
  rw [if_neg (Nat.not_lt.2 h)]
  split_ifs <;> exact ⟨_, rfl⟩

theorem ofMinor_mono {m n : Nat} {older : Layout} (h : m ≤ n) (hm : ofMinor m = .ok older) :
    ∃ newer, ofMinor n = .ok newer ∧ older ≤ newer := by
  have holder := (ofMinor_eq_ok_iff.1 hm).1
  have hnine : 9 ≤ older.firstMinor := by cases older <;> decide
  obtain ⟨newer, hnewer⟩ := exists_ofMinor (hnine.trans (holder.trans h))
  exact ⟨newer, hnewer, (ofMinor_eq_ok_iff.1 hnewer).2 older (holder.trans h)⟩

theorem ofRelease_of_namesMinor {name : String} {n : Nat} (h : NamesMinor name n) :
    ofRelease name = ofMinor n := by
  rw [ofRelease, minorRelease?_eq_some_iff.2 h]

theorem ofRelease_of_not_namesMinor {name : String} (h : ∀ n, ¬ NamesMinor name n) :
    ofRelease name = .error .unknownVersion := by
  have hnone : minorRelease? name = none :=
    Option.eq_none_iff_forall_ne_some.2 fun n hn => h n (minorRelease?_eq_some_iff.1 hn)
  rw [ofRelease, hnone]

theorem exists_ofRelease_iff {name : String} :
    (∃ layout, ofRelease name = .ok layout) ↔ ∃ n, 9 ≤ n ∧ NamesMinor name n := by
  constructor
  · rintro ⟨layout, hlayout⟩
    by_cases hname : ∃ n, NamesMinor name n
    · obtain ⟨n, hn⟩ := hname
      refine ⟨n, Nat.not_lt.1 fun hlt => ?_, hn⟩
      rw [ofRelease_of_namesMinor hn, ofMinor_of_lt hlt] at hlayout
      cases hlayout
    · rw [ofRelease_of_not_namesMinor (not_exists.1 hname)] at hlayout
      cases hlayout
  · rintro ⟨n, hnine, hn⟩
    rw [ofRelease_of_namesMinor hn]
    exact exists_ofMinor hnine

theorem ofRelease_congr {name name' : String} (h : minorRelease? name = minorRelease? name') :
    ofRelease name = ofRelease name' := by
  rw [ofRelease, ofRelease, h]

/-- A name is understood exactly if it is a release name, and has a layout exactly if it names the
minor release 9 or a later one. The layout goes up with the minor release and depends on nothing
else: not on blanks around the name, a `go` in front, or what stands behind the digits. -/
theorem ofRelease_exact :
    (∀ name n, minorRelease? name = some n ↔ NamesMinor name n) ∧
    (∀ name, (∃ layout, ofRelease name = .ok layout) ↔ ∃ n, 9 ≤ n ∧ NamesMinor name n) ∧
    (∀ name, (¬ ∃ n, 9 ≤ n ∧ NamesMinor name n) → ofRelease name = .error .unknownVersion) ∧
    (∀ name name' m n layout, NamesMinor name m → NamesMinor name' n → m ≤ n →
      ofRelease name = .ok layout → ∃ newer, ofRelease name' = .ok newer ∧ layout ≤ newer) ∧
    (∀ before name behind : String, AllBlank before.toList → AllBlank behind.toList →
      ofRelease (before ++ name ++ behind) = ofRelease name) ∧
    ∀ go ∈ ["", "go"], ∀ digits suffix : String, (∀ c ∈ digits.toList, c.isDigit = true) →
      (∀ c ∈ suffix.toList.head?, c.isDigit = false) →
      ofRelease (go ++ "1." ++ digits ++ suffix) = ofRelease ("1." ++ digits) := by
  refine ⟨fun _ _ => minorRelease?_eq_some_iff, fun _ => exists_ofRelease_iff, ?_, ?_, ?_, ?_⟩
  · intro name hname
    by_cases hminor : ∃ n, NamesMinor name n
    · obtain ⟨n, hn⟩ := hminor
      rw [ofRelease_of_namesMinor hn]
      exact ofMinor_of_lt (Nat.not_le.1 fun hnine => hname ⟨n, hnine, hn⟩)
    · exact ofRelease_of_not_namesMinor (not_exists.1 hminor)
  · intro name name' m n layout hm hn hle hlayout
    rw [ofRelease_of_namesMinor hm] at hlayout
    rw [ofRelease_of_namesMinor hn]
    exact ofMinor_mono hle hlayout
  · intro before name behind hbefore hbehind
    exact ofRelease_congr (minorRelease?_wrap hbefore hbehind name)
  · intro go hgo digits suffix hdigits hsuffix
    exact ofRelease_congr (minorRelease?_append hgo hdigits hsuffix)

/-- A candidate of a later release, with blanks around its name, against an early release. -/
theorem ofRelease_paddedCandidate :
    NamesMinor "1.9" 9 ∧ NamesMinor " go1.21rc2\n" 21 ∧ (∃ newer,
      ofRelease " go1.21rc2\n" = .ok newer ∧ go1_2 ≤ newer) ∧
    ofRelease " go1.21rc2\n" = ofRelease "1.21" ∧
    ofRelease "gogo1.21" = .error .unknownVersion := by
  obtain ⟨hminor, hlayout, hnone, hmono, hblank, hsuffix⟩ := ofRelease_exact
  have hearly : NamesMinor "1.9" 9 := (hminor _ _).1 (by decide +kernel)
  have hlate : NamesMinor " go1.21rc2\n" 21 := (hminor _ _).1 (by decide +kernel)
  have htwo : ofRelease "1.9" = .ok go1_2 := (ofRelease_of_namesMinor hearly).trans rfl
  have hdouble : minorRelease? "gogo1.21" = none := by decide +kernel
  have hbare : ofRelease " go1.21rc2\n" = ofRelease "1.21" :=
    (hblank " " "go1.21rc2" "\n" (by decide) (by decide)).trans
      (hsuffix "go" (by simp) "21" "rc2" (List.all_eq_true.1 (by decide)) (by simp))
  refine ⟨hearly, hlate, hmono _ _ _ _ _ hearly hlate (by decide) htwo, hbare, hnone _ ?_⟩
  rintro ⟨n, -, hn⟩
  rw [(hminor _ _).2 hn] at hdouble
  cases hdouble

end Layout

end GoImage
