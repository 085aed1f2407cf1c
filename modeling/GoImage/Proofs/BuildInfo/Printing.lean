import GoImage.Proofs.BuildInfo.Lines
import GoImage.Proofs.Text.Literal

/-! # Module information that is printed and read

The lines that tell of a build give back what they tell of: its path, its modules with what replaces
them, and its settings, whose keys and values are quoted where their characters would mean
something else. -/

namespace GoImage.BuildInfo

open Text

/-! ## Printing -/

/-- A version of a module in columns. -/
def versionText (v : ModuleVersion) : List Char :=
  v.path.toList ++ '\t' :: (v.version.toList ++ '\t' :: v.sum.toList)

/-- The line of a module behind its first word, and one for what replaces it. -/
def moduleLines (word : List Char) (m : Module) : List (List Char) :=
  (word ++ versionText m.toModuleVersion) ::
    m.replacement.toList.map fun v => "=>\t".toList ++ versionText v

/-- Whether a value with a character is quoted. -/
def isDelimiter (c : Char) : Bool :=
  [' ', '\t', '\r', '\n', '"', backquote].contains c

/-- A key, quoted if it is empty or a character of it would end it. -/
def keyText (printable : Char → Bool) (key : List Char) : List Char :=
  if key.isEmpty || key.any fun c => c == '=' || isDelimiter c then quoted printable key else key

def valueText (printable : Char → Bool) (value : List Char) : List Char :=
  if value.any isDelimiter then quoted printable value else value

def settingText (printable : Char → Bool) (s : Setting) : List Char :=
  keyText printable s.key.toList ++ '=' :: valueText printable s.value.toList

/-- The lines that tell of a build. -/
def linesOf (printable : Char → Bool) (info : BuildInfo) : List (List Char) :=
  ("path\t".toList ++ info.path.toList) :: (moduleLines "mod\t".toList info.main ++
    (info.dependencies.flatMap (moduleLines "dep\t".toList) ++
      info.settings.map fun s => "build\t".toList ++ settingText printable s))

/-- Lines as a text. -/
def joined (lines : List (List Char)) : String :=
  String.ofList (lines.flatMap (· ++ ['\n']))

/-- Whether a field of a module can stand in a column. -/
def ModuleVersion.FitsColumns (v : ModuleVersion) : Prop :=
  ∀ field ∈ [v.path, v.version, v.sum], '\t' ∉ field.toList ∧ '\n' ∉ field.toList

/-- Whether a build can be told of in lines: nothing outside the settings breaks a line or a
column. -/
structure IsPrintable (info : BuildInfo) : Prop where
  path : '\n' ∉ info.path.toList
  modules : ∀ m ∈ info.main :: info.dependencies, ModuleVersion.FitsColumns m.toModuleVersion ∧
    ∀ v ∈ m.replacement, ModuleVersion.FitsColumns v

variable {printable : Char → Bool}

/-! ## Settings -/

theorem settingKey_keyText (hline : printable '\n' = false) (key rest : List Char) :
    settingKey (keyText printable key ++ '=' :: rest) = .ok (key, rest) := by
  unfold keyText
  split
  next =>
    have hhead : (quoted printable key ++ '=' :: rest).head? = some '"' := rfl
    rw [settingKey, if_pos hhead, literal?_quoted hline]
    rfl
  next hplain =>
    simp only [Bool.or_eq_true, List.any_eq_true, beq_iff_eq, not_or, not_exists, not_and,
      List.isEmpty_iff] at hplain
    obtain ⟨hne, hkey⟩ := hplain
    have hcut : cut? '=' (key ++ '=' :: rest) = some (key, rest) :=
      cut?_eq_some_iff.2 ⟨rfl, fun hmem => (hkey _ hmem).1 rfl⟩
    have hhead : (key ++ '=' :: rest).head? ≠ some '"' := by
      obtain ⟨c, key, rfl⟩ := List.exists_cons_of_ne_nil hne
      intro hc
      obtain rfl : c = '"' := by simpa using hc
      exact (hkey _ List.mem_cons_self).2 (by decide)
    rw [settingKey, if_neg hhead, hcut]

theorem settingValue_valueText (hline : printable '\n' = false) (value : List Char) :
    settingValue (valueText printable value) = .ok value := by
  unfold valueText
  split
  next =>
    have hread := literal?_quoted hline value []
    rw [List.append_nil] at hread
    have hhead : (quoted printable value).head? = some '"' := rfl
    rw [settingValue, if_pos (.inl hhead), hread]
  next hplain =>
    rw [List.any_eq_true] at hplain
    have hhead : ¬ (value.head? = some '"' ∨ value.head? = some backquote) := by
      rintro (hc | hc) <;> exact hplain ⟨_, List.mem_of_head? hc, by decide⟩
    rw [settingValue, if_neg hhead]

theorem settingOf_settingText (hline : printable '\n' = false) (s : Setting) :
    settingOf (settingText printable s) = .ok s := by
  have hne : (settingText printable s).isEmpty = false := by
    simp [settingText]
  simp only [settingOf, hne, Bool.false_eq_true, ↓reduceIte]
  simp only [settingText, settingKey_keyText hline, settingValue_valueText hline, bind,
    Except.bind, pure, Except.pure, String.ofList_toList]

/-! ## Columns -/

theorem columns_versionText {v : ModuleVersion} (h : ModuleVersion.FitsColumns v) :
    columns (versionText v) = [v.path, v.version, v.sum] := by
  have htab : ∀ field ∈ [v.path, v.version, v.sum], '\t' ∉ field.toList :=
    fun field hfield => (h field hfield).1
  simp only [List.forall_mem_cons] at htab
  obtain ⟨hpath, hversion, hsum, -⟩ := htab
  rw [columns, versionText, pieces_append hpath, pieces_append hversion,
    pieces_eq_singleton hsum]
  simp

theorem moduleOf_versionText {v : ModuleVersion} (h : ModuleVersion.FitsColumns v) :
    moduleOf (versionText v) = .ok { toModuleVersion := v } := by
  rw [moduleOf, columns_versionText h]

theorem replacementOf_versionText {v : ModuleVersion} (h : ModuleVersion.FitsColumns v) :
    replacementOf (versionText v) = .ok v := by
  rw [replacementOf, columns_versionText h]

/-! ## Lines -/

variable {lines lines' : Lines} {info : BuildInfo} {rest : List (List Char)}

theorem readLines_replacement {v : ModuleVersion} (h : ModuleVersion.FitsColumns v)
    (hreplace : lines.replace v = .ok lines') :
    (readLines (("=>\t".toList ++ versionText v) :: rest)).run lines =
      (readLines rest).run lines' := by
  refine readLines_cons ?_
  have hline : Line.of ("=>\t".toList ++ versionText v) = .replacement (versionText v) := rfl
  simp only [hline, Lines.add, replacementOf_versionText h]
  exact hreplace

/-- The lines of the main module are read into its place. -/
theorem readLines_main {m : Module} {target : Option Target}
    (h : ModuleVersion.FitsColumns m.toModuleVersion)
    (hreplacement : ∀ v ∈ m.replacement, ModuleVersion.FitsColumns v) :
    ∃ target', (readLines (moduleLines "mod\t".toList m ++ rest)).run ⟨info, target⟩ =
      (readLines rest).run ⟨{ info with main := m }, target'⟩ := by
  obtain ⟨v, replacement⟩ := m
  have hline : Line.of ("mod\t".toList ++ versionText v) = .main (versionText v) := rfl
  have hadd : (⟨info, target⟩ : Lines).add (Line.of ("mod\t".toList ++ versionText v)) =
      .ok ⟨{ info with main := { toModuleVersion := v } }, some .main⟩ := by
    rw [hline, Lines.add, moduleOf_versionText h]
    rfl
  rw [moduleLines, List.cons_append, readLines_cons hadd]
  cases replacement with
  | none => exact ⟨_, rfl⟩
  | some v' => exact ⟨none, readLines_replacement (hreplacement v' rfl) rfl⟩

/-- The lines of a dependency are read behind the dependencies that are there. -/
theorem readLines_dependency {m : Module} {target : Option Target}
    (h : ModuleVersion.FitsColumns m.toModuleVersion)
    (hreplacement : ∀ v ∈ m.replacement, ModuleVersion.FitsColumns v) :
    ∃ target', (readLines (moduleLines "dep\t".toList m ++ rest)).run ⟨info, target⟩ =
      (readLines rest).run ⟨{ info with dependencies := info.dependencies ++ [m] }, target'⟩ := by
  obtain ⟨v, replacement⟩ := m
  have hline : Line.of ("dep\t".toList ++ versionText v) = .dependency (versionText v) := rfl
  have hadd : (⟨info, target⟩ : Lines).add (Line.of ("dep\t".toList ++ versionText v)) =
      .ok ⟨{ info with dependencies := info.dependencies ++ [{ toModuleVersion := v }] },
        some (.dependency info.dependencies.length)⟩ := by
    rw [hline, Lines.add, moduleOf_versionText h]
    rfl
  rw [moduleLines, List.cons_append, readLines_cons hadd]
  cases replacement with
  | none => exact ⟨_, rfl⟩
  | some v' =>
      refine ⟨none, readLines_replacement (hreplacement v' rfl) ?_⟩
      simp only [Lines.replace, modify_length_append]

theorem readLines_dependencies {modules : List Module} {target : Option Target}
    (h : ∀ m ∈ modules, ModuleVersion.FitsColumns m.toModuleVersion ∧
      ∀ v ∈ m.replacement, ModuleVersion.FitsColumns v) :
    ∃ target', (readLines (modules.flatMap (moduleLines "dep\t".toList) ++ rest)).run
        ⟨info, target⟩ =
      (readLines rest).run
        ⟨{ info with dependencies := info.dependencies ++ modules }, target'⟩ := by
  induction modules generalizing info target with
  | nil => exact ⟨target, by simp⟩
  | cons m modules ih =>
      obtain ⟨⟨hm, hreplacement⟩, hmodules⟩ := List.forall_mem_cons.1 h
      rw [List.flatMap_cons, List.append_assoc]
      obtain ⟨next, hfirst⟩ := readLines_dependency hm hreplacement
      rw [hfirst]
      obtain ⟨last, hrest⟩ := ih hmodules
      exact ⟨last, hrest.trans (by simp)⟩

theorem readLines_settings {settings : List Setting} {target : Option Target}
    (hline : printable '\n' = false) :
    (readLines ((settings.map fun s => "build\t".toList ++ settingText printable s) ++ rest)).run
        ⟨info, target⟩ =
      (readLines rest).run ⟨{ info with settings := info.settings ++ settings }, target⟩ := by
  induction settings generalizing info with
  | nil => simp
  | cons s settings ih =>
      have hword : Line.of ("build\t".toList ++ settingText printable s) =
          .setting (settingText printable s) := rfl
      have hadd : (⟨info, target⟩ : Lines).add
          (Line.of ("build\t".toList ++ settingText printable s)) =
            .ok ⟨{ info with settings := info.settings ++ [s] }, target⟩ := by
        rw [hword, Lines.add, settingOf_settingText hline]
        rfl
      rw [List.map_cons, List.cons_append, readLines_cons hadd, ih]
      simp

/-! ## Texts -/

theorem pieces_joined {lines : List (List Char)} (h : ∀ line ∈ lines, '\n' ∉ line) :
    pieces '\n' (joined lines).toList = lines ++ [[]] := by
  rw [joined, String.toList_ofList]
  induction lines with
  | nil => rfl
  | cons line lines ih =>
      obtain ⟨hline, hlines⟩ := List.forall_mem_cons.1 h
      rw [List.flatMap_cons, List.append_assoc, List.singleton_append, pieces_append hline,
        ih hlines, List.cons_append]

theorem newline_notMem_versionText {v : ModuleVersion} (h : ModuleVersion.FitsColumns v) :
    '\n' ∉ versionText v := by
  have hnewline : ∀ field ∈ [v.path, v.version, v.sum], '\n' ∉ field.toList :=
    fun field hfield => (h field hfield).2
  simp only [List.forall_mem_cons] at hnewline
  obtain ⟨hpath, hversion, hsum, -⟩ := hnewline
  simp [versionText, hpath, hversion, hsum]

theorem newline_notMem_settingText (hline : printable '\n' = false) (s : Setting) :
    '\n' ∉ settingText printable s := by
  have hkey : '\n' ∉ keyText printable s.key.toList := by
    unfold keyText
    split
    next => exact newline_notMem_quoted hline _
    next hplain =>
      intro hmem
      simp only [Bool.or_eq_true, List.any_eq_true, not_or, not_exists, not_and] at hplain
      exact (hplain.2 _ hmem).2 (by decide)
  have hvalue : '\n' ∉ valueText printable s.value.toList := by
    unfold valueText
    split
    next => exact newline_notMem_quoted hline _
    next hplain => exact fun hmem => hplain (List.any_eq_true.2 ⟨_, hmem, by decide⟩)
  simp [settingText, hkey, hvalue]

theorem newline_notMem_moduleLines {m : Module} {word : List Char} (hword : '\n' ∉ word)
    (h : ModuleVersion.FitsColumns m.toModuleVersion)
    (hreplacement : ∀ v ∈ m.replacement, ModuleVersion.FitsColumns v) :
    ∀ line ∈ moduleLines word m, '\n' ∉ line := by
  refine List.forall_mem_cons.2 ⟨?_, ?_⟩
  · simp [hword, newline_notMem_versionText h]
  · intro line hline
    obtain ⟨v, hv, rfl⟩ := List.mem_map.1 hline
    have hversion := newline_notMem_versionText (hreplacement v (Option.mem_toList.1 hv))
    exact fun hmem => (List.mem_append.1 hmem).elim (by decide) hversion

theorem newline_notMem_linesOf (hline : printable '\n' = false) (h : IsPrintable info) :
    ∀ line ∈ linesOf printable info, '\n' ∉ line := by
  obtain ⟨⟨hmain, hreplacement⟩, hdependencies⟩ := List.forall_mem_cons.1 h.modules
  refine List.forall_mem_cons.2 ⟨?_, List.forall_mem_append.2
    ⟨newline_notMem_moduleLines (by decide) hmain hreplacement, List.forall_mem_append.2 ⟨?_, ?_⟩⟩⟩
  · exact fun hmem => (List.mem_append.1 hmem).elim (by decide) h.path
  · intro line hmem
    obtain ⟨m, hm, hmem⟩ := List.mem_flatMap.1 hmem
    obtain ⟨hversion, hreplacement⟩ := hdependencies m hm
    exact newline_notMem_moduleLines (by decide) hversion hreplacement line hmem
  · intro line hmem
    obtain ⟨s, -, rfl⟩ := List.mem_map.1 hmem
    exact fun hmem => (List.mem_append.1 hmem).elim (by decide)
      (newline_notMem_settingText hline s)

/-- What is printed of a build is read back: all but its release, which is no part of the text. -/
theorem readText_printed (hline : printable '\n' = false) (h : IsPrintable info) :
    ∃ target, (readText (joined (linesOf printable info))).run {} =
      .ok () ⟨{ info with goVersion := "" }, target⟩ := by
  obtain ⟨⟨hmain, hreplacement⟩, hdependencies⟩ := List.forall_mem_cons.1 h.modules
  rw [readText, pieces_joined (newline_notMem_linesOf hline h), linesOf, List.cons_append,
    List.append_assoc, List.append_assoc]
  have hpath : ({} : Lines).add (Line.of ("path\t".toList ++ info.path.toList)) =
      .ok ⟨{ path := info.path }, none⟩ := by
    have hword : Line.of ("path\t".toList ++ info.path.toList) = .path info.path.toList := rfl
    rw [hword, Lines.add, String.ofList_toList]
    rfl
  rw [readLines_cons hpath]
  obtain ⟨target, hmain⟩ := readLines_main hmain hreplacement
  rw [hmain]
  obtain ⟨last, hdependencies⟩ := readLines_dependencies hdependencies
  rw [hdependencies, readLines_settings hline]
  exact ⟨last, rfl⟩

/-! ## Settings that need quotes -/

def isPrintableAscii (c : Char) : Bool :=
  0x20 ≤ c.toNat && c.toNat < 0x7f

def quotedInfo : BuildInfo :=
  { goVersion := "go1.21.0"
    path := "cmd"
    main := { path := "cmd", version := "(devel)", replacement := some { path := "../cmd" } }
    dependencies := [{ path := "lib", version := "v1.2.3", sum := "h1:abc=" }]
    settings := [⟨"", "first\nsecond"⟩, ⟨"a=b", "\"\u200b\""⟩, ⟨"-tags", "x,y"⟩] }

instance (v : ModuleVersion) : Decidable (ModuleVersion.FitsColumns v) :=
  inferInstanceAs (Decidable (∀ field ∈ [v.path, v.version, v.sum],
    '\t' ∉ field.toList ∧ '\n' ∉ field.toList))

theorem readText_quotedInfo :
    isPrintableAscii '\n' = false ∧ IsPrintable quotedInfo ∧
      joined (linesOf isPrintableAscii quotedInfo) =
        "path\tcmd\nmod\tcmd\t(devel)\t\n=>\t../cmd\t\t\ndep\tlib\tv1.2.3\th1:abc=\n" ++
          "build\t\"\"=\"first\\nsecond\"\nbuild\t\"a=b\"=\"\\\"\\u200b\\\"\"\nbuild\t-tags=x,y\n" ∧
      ∃ target, (readText (joined (linesOf isPrintableAscii quotedInfo))).run {} =
        .ok () ⟨{ quotedInfo with goVersion := "" }, target⟩ := by
  have hprintable : IsPrintable quotedInfo := ⟨by decide, by decide⟩
  exact ⟨by decide, hprintable, by decide +kernel, readText_printed (by decide) hprintable⟩

end GoImage.BuildInfo
