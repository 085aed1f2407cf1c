import GoImage.Package

/-! # The package of a qualified name

A name that is put together from an import path and a symbol is taken apart again, unless the path
begins like a name that the compiler makes up. -/

namespace GoImage

/-! ## Characters in front of others -/

theorem takeWhile_ne_append_cons (c : Char) (before behind : List Char) :
    (before ++ c :: behind).takeWhile (· ≠ c) = before.takeWhile (· ≠ c) := by
  induction before with
  | nil => simp
  | cons b before ih =>
      rw [List.cons_append, List.takeWhile_cons, List.takeWhile_cons, ih]

theorem takeWhile_ne_append {c : Char} {before : List Char} (h : c ∉ before)
    (behind : List Char) :
    (before ++ behind).takeWhile (· ≠ c) = before ++ behind.takeWhile (· ≠ c) :=
  List.takeWhile_append_of_pos fun _ ha => decide_eq_true fun heq => h (heq ▸ ha)

theorem dropWhile_ne_append {c : Char} {before : List Char} (h : c ∉ before)
    (behind : List Char) :
    (before ++ behind).dropWhile (· ≠ c) = behind.dropWhile (· ≠ c) :=
  List.dropWhile_append_of_pos fun _ ha => decide_eq_true fun heq => h (heq ▸ ha)

/-- What stands behind the last of a character; all of the text if there is none. -/
def afterLast (c : Char) (text : List Char) : List Char :=
  (text.reverse.takeWhile (· ≠ c)).reverse

theorem afterLast_subset (c : Char) (text : List Char) : afterLast c text ⊆ text := by
  intro a ha
  exact List.mem_reverse.1 (List.takeWhile_subset _ (List.mem_reverse.1 ha))

theorem length_afterLast_le (c : Char) (text : List Char) :
    (afterLast c text).length ≤ text.length := by
  unfold afterLast
  rw [List.length_reverse]
  exact Nat.le_trans (List.takeWhile_prefix _).length_le (Nat.le_of_eq List.length_reverse)

theorem afterLast_append_cons (c : Char) (before behind : List Char) :
    afterLast c (before ++ c :: behind) = afterLast c behind := by
  unfold afterLast
  rw [List.reverse_append, List.reverse_cons, List.append_assoc]
  exact congrArg List.reverse (takeWhile_ne_append_cons c behind.reverse before.reverse)

theorem afterLast_eq_self {c : Char} {text : List Char} (h : c ∉ text) :
    afterLast c text = text := by
  have hreverse : c ∉ text.reverse := by simpa using h
  have htake := takeWhile_ne_append hreverse []
  rw [List.append_nil, List.takeWhile_nil, List.append_nil] at htake
  unfold afterLast
  rw [htake, List.reverse_reverse]

/-! ## Paths -/

theorem splitPath_append {tail : List Char} (h : '/' ∉ tail) (path : List Char) :
    splitPath (path ++ tail) = ((splitPath path).1, (splitPath path).2 ++ tail) := by
  have hreverse : '/' ∉ tail.reverse := by simpa using h
  unfold splitPath
  rw [List.reverse_append, takeWhile_ne_append hreverse, dropWhile_ne_append hreverse,
    List.reverse_append, List.reverse_reverse]

theorem splitPath_append_eq (path : List Char) :
    (splitPath path).1 ++ (splitPath path).2 = path := by
  unfold splitPath
  rw [← List.reverse_append, List.takeWhile_append_dropWhile, List.reverse_reverse]

/-- What the import path in a qualified name must be like to be told apart from the rest: not
empty, without brackets, and without a `.` behind its last `/`. -/
structure ImportPath (path : List Char) : Prop where
  ne_nil : path ≠ []
  noOpening : '[' ∉ path
  noClosing : ']' ∉ path
  noDot : '.' ∉ (splitPath path).2

/-- A symbol in which no `/` stands outside of one instantiation in brackets. -/
inductive IsSymbol : List Char → Prop
  | plain {symbol : List Char} (h : '/' ∉ symbol) : IsSymbol symbol
  | instantiated {before types behind : List Char} (hbefore : '/' ∉ before)
    (hbehind : '/' ∉ behind) : IsSymbol (before ++ '[' :: types ++ ']' :: behind)

theorem eq_append_cons_of_mem_last {c : Char} {text : List Char} (h : c ∈ text) :
    ∃ before behind, text = before ++ c :: behind ∧ c ∉ behind := by
  obtain ⟨behind, before, hreverse, hbehind⟩ := List.eq_append_cons_of_mem (List.mem_reverse.2 h)
  refine ⟨before.reverse, behind.reverse, ?_, by simpa using hbehind⟩
  rw [← List.reverse_reverse text, hreverse]
  simp

/-- A symbol is one in which every `/` has an opening bracket in front of it and a closing one
behind it. -/
theorem isSymbol_iff {symbol : List Char} :
    IsSymbol symbol ↔
      ∀ before behind, symbol = before ++ '/' :: behind → '[' ∈ before ∧ ']' ∈ behind := by
  constructor
  · rintro (hslash | @⟨front, types, rest, hfront, hrest⟩) before behind hsymbol
    · exact absurd (hsymbol ▸ by simp) hslash
    · constructor
      · rw [List.append_assoc] at hsymbol
        rcases List.append_eq_append_iff.1 hsymbol with ⟨u, rfl, hu⟩ | ⟨u, rfl, hu⟩
        · cases u with
          | nil => simp at hu
          | cons b u =>
              rw [← (List.cons.inj hu).1]
              simp
        · cases u with
          | nil => simp at hu
          | cons b u => simp [← (List.cons.inj hu).1] at hfront
      · rcases List.append_eq_append_iff.1 hsymbol with ⟨u, rfl, hu⟩ | ⟨u, -, hu⟩
        · cases u with
          | nil => simp at hu
          | cons b u => simp [(List.cons.inj hu).2] at hrest
        · cases u with
          | nil => simp at hu
          | cons b u => simp [(List.cons.inj hu).2]
  · intro h
    by_cases hslash : '/' ∈ symbol
    · -- The instantiation goes from the first opening bracket to the last closing one.
      obtain ⟨before, behind, hsymbol⟩ := List.append_of_mem hslash
      have hopening : '[' ∈ symbol := by
        rw [hsymbol]
        exact List.mem_append_left _ (h before behind hsymbol).1
      obtain ⟨front, rest, rfl, hfront⟩ := List.eq_append_cons_of_mem hopening
      have hfront' : '/' ∉ front := by
        intro hmem
        obtain ⟨u, v, rfl⟩ := List.append_of_mem hmem
        have hu := (h u (v ++ '[' :: rest) (by simp)).1
        exact hfront (List.mem_append_left _ hu)
      have hclosing : ']' ∈ rest := by
        obtain ⟨u, v, rfl⟩ := List.append_of_mem (show '/' ∈ rest by simpa [hfront'] using hslash)
        have hv := (h (front ++ '[' :: u) v (by simp)).2
        simp [hv]
      obtain ⟨types, tail, rfl, htail⟩ := eq_append_cons_of_mem_last hclosing
      have htail' : '/' ∉ tail := by
        intro hmem
        obtain ⟨u, v, rfl⟩ := List.append_of_mem hmem
        have hv := (h (front ++ '[' :: (types ++ ']' :: u)) v (by simp)).2
        exact htail (by simp [hv])
      rw [← List.cons_append, ← List.append_assoc]
      exact .instantiated hfront' htail'
    · exact .plain hslash

/-! ## Instantiations -/

/-- Only the symbol of a qualified name is changed by leaving the instantiation out, and no `/` is
left in it. -/
theorem withoutInstantiation_qualified {path symbol : List Char} (hpath : ImportPath path)
    (hsymbol : IsSymbol symbol) :
    ∃ rest, withoutInstantiation (path ++ '.' :: symbol) = path ++ '.' :: rest ∧ '/' ∉ rest := by
  have hopening : '[' ∉ path ++ ['.'] := by simpa using hpath.noOpening
  have hbefore : (path ++ '.' :: symbol).takeWhile (· ≠ '[') =
      path ++ '.' :: symbol.takeWhile (· ≠ '[') := by
    rw [List.append_cons, takeWhile_ne_append hopening, ← List.append_cons]
  unfold withoutInstantiation
  dsimp only
  rw [hbefore]
  change ∃ rest, (if _ + (afterLast ']' (path ++ '.' :: symbol)).length < _ then
    _ ++ afterLast ']' (path ++ '.' :: symbol) else _) = _ ∧ _
  have hkept : ∀ {front behind : List Char}, '/' ∉ front → '/' ∉ behind →
      '/' ∉ front.takeWhile (· ≠ '[') ++ afterLast ']' behind := by
    intro front behind hfront hbehind hmem
    rcases List.mem_append.1 hmem with hmem | hmem
    · exact hfront (List.takeWhile_subset _ hmem)
    · exact hbehind (afterLast_subset ']' behind hmem)
  cases hsymbol with
  | plain hslash =>
      by_cases hclosing : ']' ∈ symbol
      · obtain ⟨front, behind, hsymbol⟩ := List.append_of_mem hclosing
        have hafter : afterLast ']' (path ++ '.' :: symbol) = afterLast ']' behind := by
          rw [hsymbol, ← List.cons_append, ← List.append_assoc]
          exact afterLast_append_cons ']' _ behind
        have hbehind : '/' ∉ behind := fun hmem =>
          hslash (hsymbol ▸ List.mem_append_right front (List.mem_cons_of_mem ']' hmem))
        rw [hafter]
        split
        · exact ⟨_, by rw [List.append_assoc, List.cons_append], hkept hslash hbehind⟩
        · exact ⟨symbol, rfl, hslash⟩
      · -- Without a closing bracket, all of the name is behind the last one.
        have hnone : ']' ∉ path ++ '.' :: symbol := by
          simpa using ⟨hpath.noClosing, hclosing⟩
        rw [afterLast_eq_self hnone, if_neg (by omega)]
        exact ⟨symbol, rfl, hslash⟩
  | @instantiated before types behind hslash hslash' =>
      have hafter : afterLast ']' (path ++ '.' :: (before ++ '[' :: types ++ ']' :: behind)) =
          afterLast ']' behind := by
        rw [← List.cons_append, ← List.append_assoc]
        exact afterLast_append_cons ']' _ behind
      have hfront : (before ++ '[' :: types ++ ']' :: behind).takeWhile (· ≠ '[') =
          before.takeWhile (· ≠ '[') := by
        rw [List.append_assoc, List.cons_append]
        exact takeWhile_ne_append_cons '[' before _
      have hshort := (List.takeWhile_prefix (l := before) (· ≠ '[')).length_le
      have hshort' := length_afterLast_le ']' behind
      rw [hafter, hfront, if_pos (by simp only [List.length_append, List.length_cons]; omega)]
      exact ⟨_, by rw [List.append_assoc, List.cons_append], hkept hslash hslash'⟩

/-! ## Names that the compiler makes up -/

theorem isGenerated_qualified (path rest : List Char) :
    isGenerated (path ++ '.' :: rest) = isGenerated (path ++ ['.']) := by
  have hname : path ++ '.' :: rest = path ++ ['.'] ++ rest := by simp
  have hbeginning : ∀ beginning ∈ generatedBeginnings, '.' ∉ beginning.toList.dropLast := by
    decide
  have hiff : ∀ beginning ∈ generatedBeginnings,
      beginning.toList <+: path ++ '.' :: rest ↔ beginning.toList <+: path ++ ['.'] := by
    intro beginning hmem
    constructor
    · intro hprefix
      by_cases hlength : beginning.toList.length ≤ (path ++ ['.']).length
      · exact List.prefix_of_prefix_length_le hprefix (hname ▸ List.prefix_append _ rest) hlength
      · -- A longer beginning would have a `.` in front of its last character.
        have hlonger := List.prefix_of_prefix_length_le (hname ▸ List.prefix_append _ rest) hprefix
          (Nat.le_of_not_le hlength)
        obtain ⟨tail, htail⟩ := hlonger
        have hne : tail ≠ [] := by
          rintro rfl
          rw [List.append_nil] at htail
          exact hlength (Nat.le_of_eq (congrArg List.length htail.symm))
        refine absurd ?_ (hbeginning beginning hmem)
        rw [← htail, List.dropLast_append_of_ne_nil hne]
        simp
    · exact fun hprefix => hname ▸ hprefix.trans (List.prefix_append _ rest)
  unfold isGenerated
  rw [Bool.eq_iff_iff, List.any_eq_true, List.any_eq_true]
  refine exists_congr fun beginning => and_congr_right fun hmem => ?_
  rw [List.isPrefixOf_iff_prefix, List.isPrefixOf_iff_prefix]
  exact hiff beginning hmem

/-- The package of a qualified name is its import path, unless the path begins like a name that the
compiler makes up. -/
theorem packageChars_qualified {path symbol : List Char} (hpath : ImportPath path)
    (hsymbol : IsSymbol symbol) :
    packageChars (path ++ '.' :: symbol) = if isGenerated (path ++ ['.']) then [] else path := by
  obtain ⟨rest, hrest, hslash⟩ := withoutInstantiation_qualified hpath hsymbol
  have hslash' : '/' ∉ '.' :: rest := by simpa using hslash
  unfold packageChars
  dsimp only
  rw [hrest, isGenerated_qualified, splitPath_append hslash']
  dsimp only
  have hcontains : ((splitPath path).2 ++ '.' :: rest).contains '.' = true := by simp
  rw [if_pos hcontains, takeWhile_ne_append_cons, ← List.append_nil (splitPath path).2,
    takeWhile_ne_append hpath.noDot, List.takeWhile_nil, List.append_nil, splitPath_append_eq]

theorem packageName_qualified {path symbol : String} (hpath : ImportPath path.toList)
    (hsymbol : IsSymbol symbol.toList) :
    packageName (path ++ "." ++ symbol) =
      if isGenerated (path.toList ++ ['.']) then "" else path := by
  have hname : (path ++ "." ++ symbol).toList = path.toList ++ '.' :: symbol.toList := by simp
  unfold packageName
  rw [hname, packageChars_qualified hpath hsymbol]
  split
  · rfl
  · exact String.ofList_toList

theorem isGenerated_eq_true_iff {name : List Char} :
    isGenerated name = true ↔ ∃ beginning ∈ generatedBeginnings, beginning.toList <+: name := by
  simp [isGenerated]

/-- The import path is found again in every name that is put together from it and a symbol, whatever
stands in the brackets of the symbol and around them, unless the name begins like one that the
compiler makes up. -/
theorem packageName_eq_path_iff {path symbol : String} (hpath : ImportPath path.toList)
    (hsymbol : ∀ before behind, symbol.toList = before ++ '/' :: behind →
      '[' ∈ before ∧ ']' ∈ behind) :
    packageName (path ++ "." ++ symbol) = path ↔
      ∀ beginning ∈ generatedBeginnings, ¬ beginning.toList <+: (path ++ ".").toList := by
  have hne : "" ≠ path := by
    rintro rfl
    exact hpath.ne_nil rfl
  have hgenerated : isGenerated (path.toList ++ ['.']) = true ↔
      ∃ beginning ∈ generatedBeginnings, beginning.toList <+: (path ++ ".").toList := by
    rw [isGenerated_eq_true_iff, String.toList_append]
    rfl
  rw [packageName_qualified hpath (isSymbol_iff.2 hsymbol)]
  split
  · rename_i h
    obtain ⟨beginning, hmem, hprefix⟩ := hgenerated.1 h
    exact ⟨fun heq => absurd heq hne, fun hnone => absurd hprefix (hnone beginning hmem)⟩
  · rename_i h
    exact ⟨fun _ beginning hmem hprefix => h (hgenerated.2 ⟨beginning, hmem, hprefix⟩),
      fun _ => rfl⟩

/-- A receiver and a closure do not get in the way, nor do the dots, the slashes and the brackets of
type arguments. -/
theorem packageName_widget :
    ImportPath "gopkg.in/acme/widget".toList ∧
      IsSymbol "(*Gear[map[int]a.b/c.T]).Spin.func1".toList ∧
      packageName ("gopkg.in/acme/widget" ++ "." ++ "(*Gear[map[int]a.b/c.T]).Spin.func1") =
        "gopkg.in/acme/widget" := by
  have hpath : ImportPath "gopkg.in/acme/widget".toList :=
    ⟨by decide, by decide, by decide, by decide⟩
  have hsymbol : IsSymbol "(*Gear[map[int]a.b/c.T]).Spin.func1".toList :=
    @IsSymbol.instantiated "(*Gear".toList "map[int]a.b/c.T".toList ").Spin.func1".toList
      (by decide) (by decide)
  exact ⟨hpath, hsymbol, (packageName_eq_path_iff hpath (isSymbol_iff.1 hsymbol)).2 (by decide)⟩

/-- A path without a standard package begins like a name that the compiler makes up if it does so by
itself, or if the `.` behind it completes such a name. -/
theorem isGenerated_concat {path : String} (hstandard : isStandard path = false) :
    isGenerated (path.toList ++ ['.']) = (path == "type" || isGenerated path.toList) := by
  rw [Bool.eq_iff_iff, Bool.or_eq_true, beq_iff_eq]
  constructor
  · intro h
    obtain ⟨beginning, hmem, hprefix⟩ := List.any_eq_true.1 h
    rcases List.prefix_concat_iff.1 (List.isPrefixOf_iff_prefix.1 hprefix) with heq | hprefix
    · left
      have hcompletes : path.toList = beginning.toList.dropLast ∧
          beginning.toList.getLast? = some '.' := by
        rw [heq]
        simp
      simp only [generatedBeginnings, List.mem_cons, List.not_mem_nil, or_false] at hmem
      rcases hmem with rfl | rfl | rfl | rfl
      · have hgo : path = "go" := String.toList_inj.1 hcompletes.1
        rw [hgo] at hstandard
        exact absurd hstandard (by decide)
      · exact String.toList_inj.1 hcompletes.1
      · exact absurd hcompletes.2 (by decide)
      · exact absurd hcompletes.2 (by decide)
    · exact .inr (List.any_eq_true.2 ⟨beginning, hmem, List.isPrefixOf_iff_prefix.2 hprefix⟩)
  · rintro (rfl | h)
    · rfl
    · obtain ⟨beginning, hmem, hprefix⟩ := List.any_eq_true.1 h
      have hlonger := (List.isPrefixOf_iff_prefix.1 hprefix).trans (List.prefix_append _ ['.'])
      exact List.any_eq_true.2 ⟨beginning, hmem, List.isPrefixOf_iff_prefix.2 hlonger⟩

end GoImage
