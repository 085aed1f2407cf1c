import GoImage.Proofs.BuildInfo.Beginning

/-! # Module information that breaks off

A text that breaks off says what its complete lines say, and what the beginning of the line says at
which it breaks off. The first is never taken back. The second is a module, a replacement or a
setting of its own wherever the beginning has the shape of a whole line. -/

namespace GoImage.BuildInfo

open Text

variable {lines next : Lines} {line : List Char} {all : List (List Char)}

/-! ## One line -/

namespace Lines

def withMain (lines : Lines) (m : Module) : Lines :=
  ⟨{ lines.info with main := m }, some .main⟩

def withDependency (lines : Lines) (m : Module) : Lines :=
  ⟨{ lines.info with dependencies := lines.info.dependencies ++ [m] },
    some (.dependency lines.info.dependencies.length)⟩

/-- What lines say with the main module replaced. -/
def withMainReplacement (lines : Lines) (v : ModuleVersion) : Lines :=
  ⟨{ lines.info with main := { lines.info.main with replacement := some v } }, none⟩

/-- What lines say with a dependency replaced. -/
def withReplacement (lines : Lines) (i : Nat) (v : ModuleVersion) : Lines :=
  ⟨{ lines.info with
      dependencies := lines.info.dependencies.modify i ({ · with replacement := some v }) }, none⟩

def withSetting (lines : Lines) (s : Setting) : Lines :=
  { lines with info := { lines.info with settings := lines.info.settings ++ [s] } }

theorem dependencies_withDependency (m : Module) :
    (lines.withDependency m).info.dependencies = lines.info.dependencies ++ [m] :=
  rfl

theorem dependencies_withReplacement (i : Nat) (v : ModuleVersion) :
    (lines.withReplacement i v).info.dependencies =
      lines.info.dependencies.modify i ({ · with replacement := some v }) :=
  rfl

theorem settings_withSetting (s : Setting) :
    (lines.withSetting s).info.settings = lines.info.settings ++ [s] :=
  rfl

/-- What a line does to what the lines before it have said. -/
inductive Adds (lines : Lines) : Line → Lines → Prop
  | path (text : List Char) :
      lines.Adds (.path text) { lines with info := { lines.info with path := String.ofList text } }
  | main {columns : List Char} {m : Module} (h : moduleOf columns = .ok m) :
      lines.Adds (.main columns) (lines.withMain m)
  | dependency {columns : List Char} {m : Module} (h : moduleOf columns = .ok m) :
      lines.Adds (.dependency columns) (lines.withDependency m)
  | replaceMain {columns : List Char} {v : ModuleVersion} (h : replacementOf columns = .ok v)
      (htarget : lines.target = some .main) :
      lines.Adds (.replacement columns) (lines.withMainReplacement v)
  | replaceDependency {columns : List Char} {v : ModuleVersion} {i : Nat}
      (h : replacementOf columns = .ok v) (htarget : lines.target = some (.dependency i)) :
      lines.Adds (.replacement columns) (lines.withReplacement i v)
  | setting {text : List Char} {s : Setting} (h : settingOf text = .ok s) :
      lines.Adds (.setting text) (lines.withSetting s)
  | other : lines.Adds .other lines

theorem add_main (columns : List Char) :
    lines.add (.main columns) = (moduleOf columns).map lines.withMain := by
  cases h : moduleOf columns <;> rw [add, h] <;> rfl

theorem add_dependency (columns : List Char) :
    lines.add (.dependency columns) = (moduleOf columns).map lines.withDependency := by
  cases h : moduleOf columns <;> rw [add, h] <;> rfl

theorem add_mainReplacement (htarget : lines.target = some .main) (columns : List Char) :
    lines.add (.replacement columns) = (replacementOf columns).map lines.withMainReplacement := by
  obtain ⟨info, target⟩ := lines
  obtain rfl : target = some .main := htarget
  cases h : replacementOf columns <;> rw [add, h] <;> rfl

theorem add_replacement {i : Nat} (htarget : lines.target = some (.dependency i))
    (columns : List Char) :
    lines.add (.replacement columns) = (replacementOf columns).map (lines.withReplacement i) := by
  obtain ⟨info, target⟩ := lines
  obtain rfl : target = some (.dependency i) := htarget
  cases h : replacementOf columns <;> rw [add, h] <;> rfl

theorem add_setting (text : List Char) :
    lines.add (.setting text) = (settingOf text).map lines.withSetting := by
  cases h : settingOf text <;> rw [add, h] <;> rfl

theorem adds_of_add {line : Line} (h : lines.add line = .ok next) : lines.Adds line next := by
  cases line with
  | path text =>
      cases h
      exact .path text
  | main columns =>
      obtain ⟨m, hm, h⟩ := exists_of_bind_eq_ok h
      cases h
      exact .main hm
  | dependency columns =>
      obtain ⟨m, hm, h⟩ := exists_of_bind_eq_ok h
      cases h
      exact .dependency hm
  | replacement columns =>
      obtain ⟨v, hv, h⟩ := exists_of_bind_eq_ok h
      unfold replace at h
      cases htarget : lines.target with
      | none =>
          rw [htarget] at h
          cases h
      | some target =>
          rw [htarget] at h
          cases target with
          | main =>
              cases h
              exact .replaceMain hv htarget
          | dependency i =>
              cases h
              exact .replaceDependency hv htarget
  | setting text =>
      obtain ⟨s, hs, h⟩ := exists_of_bind_eq_ok h
      cases h
      exact .setting hs
  | other =>
      cases h
      exact .other

end Lines

theorem replacement_of_moduleOf {columns : List Char} {m : Module} (h : moduleOf columns = .ok m) :
    m.replacement = none := by
  unfold moduleOf at h
  split at h <;> cases h <;> rfl

/-! ## What stays -/

/-- Whether everything that is told of dependencies and settings is told of them later too. What
replaces a dependency may be told later only. -/
structure Extends (before after : BuildInfo) : Prop where
  dependencies : ∀ (i : Nat) (m : Module), before.dependencies[i]? = some m →
    ∃ m' : Module, after.dependencies[i]? = some m' ∧ m'.toModuleVersion = m.toModuleVersion ∧
      (m.replacement = none ∨ m'.replacement = m.replacement)
  settings : ∀ (i : Nat) (s : Setting), before.settings[i]? = some s → after.settings[i]? = some s

namespace Extends

theorem of_eq {before after : BuildInfo} (hdependencies : before.dependencies = after.dependencies)
    (hsettings : before.settings = after.settings) : Extends before after where
  dependencies _ m h := ⟨m, hdependencies ▸ h, rfl, .inr rfl⟩
  settings _ _ h := hsettings ▸ h

theorem trans {first second third : BuildInfo} (h : Extends first second)
    (h' : Extends second third) : Extends first third where
  dependencies i m hm := by
    obtain ⟨m₂, hm₂, hversion, hreplacement⟩ := h.dependencies i m hm
    obtain ⟨m₃, hm₃, hversion', hreplacement'⟩ := h'.dependencies i m₂ hm₂
    refine ⟨m₃, hm₃, hversion'.trans hversion, ?_⟩
    rcases hreplacement with hnone | hsame
    · exact .inl hnone
    · rcases hreplacement' with hnone | hsame'
      · exact .inl (hsame ▸ hnone)
      · exact .inr (hsame'.trans hsame)
  settings i s hs := h'.settings i s (h.settings i s hs)

end Extends

/-- Whether a version is stated by a line for the main module. -/
def StatedByMain (all : List (List Char)) (v : ModuleVersion) : Prop :=
  ∃ line ∈ all, ∃ columns m, Line.of line = .main columns ∧ moduleOf columns = .ok m ∧
    m.toModuleVersion = v

/-- What holds while the lines of a text are read one after the other: a dependency that can be
replaced has not been replaced, and the main module comes from a line. -/
structure Lines.Traced (all : List (List Char)) (lines : Lines) : Prop where
  fresh : ∀ i, lines.target = some (.dependency i) →
    ∃ m, lines.info.dependencies[i]? = some m ∧ m.replacement = none
  main : lines.info.main.toModuleVersion = {} ∨
    StatedByMain all lines.info.main.toModuleVersion

namespace Lines.Traced

theorem empty (all : List (List Char)) : ({} : Lines).Traced all :=
  ⟨nofun, .inl rfl⟩

theorem add (h : lines.Traced all) (hline : line ∈ all) (hadd : lines.Adds (Line.of line) next) :
    next.Traced all := by
  generalize hkind : Line.of line = kind at hadd
  cases hadd with
  | path text => exact ⟨h.fresh, h.main⟩
  | main hm => exact ⟨nofun, .inr ⟨line, hline, _, _, hkind, hm, rfl⟩⟩
  | dependency hm =>
      refine ⟨?_, h.main⟩
      rintro _ ⟨⟩
      exact ⟨_, List.getElem?_concat_length, replacement_of_moduleOf hm⟩
  | replaceMain hv htarget => exact ⟨nofun, h.main⟩
  | replaceDependency hv htarget => exact ⟨nofun, h.main⟩
  | setting hs => exact ⟨h.fresh, h.main⟩
  | other => exact h

theorem extends_add (h : lines.Traced all) {line : Line} (hadd : lines.Adds line next) :
    Extends lines.info next.info := by
  cases hadd with
  | path text => exact .of_eq rfl rfl
  | main hm => exact .of_eq rfl rfl
  | dependency hm =>
      refine ⟨fun i m hi => ⟨m, ?_, rfl, .inr rfl⟩, fun _ _ hs => hs⟩
      rw [dependencies_withDependency,
        List.getElem?_append_left (List.getElem?_eq_some_iff.1 hi).1, hi]
  | replaceMain hv htarget => exact .of_eq rfl rfl
  | @replaceDependency _ v i hv htarget =>
      refine ⟨fun j m hj => ?_, fun _ _ hs => hs⟩
      by_cases hij : i = j
      · subst hij
        obtain ⟨m', hm', hfresh⟩ := h.fresh i htarget
        rw [hj] at hm'
        cases hm'
        exact ⟨{ m with replacement := some v }, by simp [dependencies_withReplacement, hj], rfl,
          .inl hfresh⟩
      · exact ⟨m, by simp [dependencies_withReplacement, hij, hj], rfl, .inr rfl⟩
  | setting hs =>
      refine ⟨fun i m hi => ⟨m, hi, rfl, .inr rfl⟩, fun i s hi => ?_⟩
      rw [settings_withSetting, List.getElem?_append_left (List.getElem?_eq_some_iff.1 hi).1, hi]
  | other => exact .of_eq rfl rfl

/-- What lines of a text say, the lines behind them do not take back. -/
theorem run {ls : List (List Char)} (h : lines.Traced all) (hls : ls ⊆ all)
    (hrun : (readLines ls).run lines = .ok () next) :
    next.Traced all ∧ Extends lines.info next.info := by
  induction ls generalizing lines with
  | nil =>
      cases hrun
      exact ⟨h, .of_eq rfl rfl⟩
  | cons line ls ih =>
      obtain ⟨second, hadd, hrest⟩ := exists_of_readLines_cons hrun
      obtain ⟨hline, hls⟩ := List.cons_subset.1 hls
      have hadds := adds_of_add hadd
      obtain ⟨hnext, hextends⟩ := ih (h.add hline hadds) hls hrest
      exact ⟨hnext, (h.extends_add hadds).trans hextends⟩

end Lines.Traced

/-! ## The beginning of a line -/

/-- The line that a beginning goes on to. -/
def Line.extended (rest : List Char) : Line → Line
  | .path text => .path (text ++ rest)
  | .main columns => .main (columns ++ rest)
  | .dependency columns => .dependency (columns ++ rest)
  | .replacement columns => .replacement (columns ++ rest)
  | .setting text => .setting (text ++ rest)
  | .other => .other

theorem Line.of_append (rest : List Char) (h : Line.of line ≠ .other) :
    Line.of (line ++ rest) = (Line.of line).extended rest := by
  unfold Line.of at h
  cases hpath : after? "path\t".toList line with
  | some text =>
      obtain rfl := after?_eq_some_iff.1 hpath
      rfl
  | none =>
  cases hmain : after? "mod\t".toList line with
  | some columns =>
      obtain rfl := after?_eq_some_iff.1 hmain
      rfl
  | none =>
  cases hdependency : after? "dep\t".toList line with
  | some columns =>
      obtain rfl := after?_eq_some_iff.1 hdependency
      rfl
  | none =>
  cases hreplacement : after? "=>\t".toList line with
  | some columns =>
      obtain rfl := after?_eq_some_iff.1 hreplacement
      rfl
  | none =>
  cases hsetting : after? "build\t".toList line with
  | some text =>
      obtain rfl := after?_eq_some_iff.1 hsetting
      rfl
  | none =>
      rw [hpath, hmain, hdependency, hreplacement, hsetting] at h
      exact absurd rfl h

/-- Whether the beginning of a line does no harm when it is read for the line, from which `rest` is
missing. -/
def Line.BreaksSafely (all : List (List Char)) (target : Option Target) (rest : List Char) :
    Line → Prop
  | .path _ | .other => True
  | .main columns => ∀ m, moduleOf columns = .ok m →
      m.toModuleVersion = {} ∨ StatedByMain all m.toModuleVersion
  | .dependency columns => '\t' ∈ columns → rest = [] ∨ rest = ['\t']
  | .replacement columns => columns.count '\t' = 2 → target = some .main ∨ rest = []
  | .setting text => ∀ key value, settingKey text = .ok (key, value) →
      rest = [] ∨ OpensLiteral value ∨ value = [] ∧ settingValue rest = .ok []

/-- Whether what is told of a part of a text is told of the whole text too, and its main module by
one of the lines. -/
structure KeepsProvenance (all : List (List Char)) (part whole : BuildInfo) : Prop
    extends Extends part whole where
  main : part.main.toModuleVersion = {} ∨ StatedByMain all part.main.toModuleVersion

/-- The state that a run ends in, whatever it answers. -/
def finalState {ε σ α : Type} : EStateM.Result ε σ α → σ
  | .ok _ s => s
  | .error _ s => s

/-- What lines say, up to the first one that is refused. -/
def Lines.reach (lines : Lines) (ls : List (List Char)) : Lines :=
  finalState ((readLines ls).run lines)

theorem Lines.reach_of_add (hadd : lines.add (Line.of line) = .ok next) :
    lines.reach [line] = next := by
  rw [Lines.reach, readLines_cons hadd]
  rfl

theorem Lines.reach_of_refused {fault : LineFault}
    (hadd : lines.add (Line.of line) = .error fault) (ls : List (List Char)) :
    lines.reach (line :: ls) = lines := by
  rw [Lines.reach, readLines_cons_of_refused hadd]
  rfl

section Beginning

variable {full : Lines} {whole : BuildInfo} {rest : List Char}

theorem Lines.Traced.keeps (h : lines.Traced all) (hwhole : Extends lines.info whole) :
    KeepsProvenance all lines.info whole :=
  ⟨hwhole, h.main⟩

/-- A whole text has one dependency at a place. -/
theorem eq_of_extends_dependency {m m' : Module} (h : Extends (lines.withDependency m).info whole)
    (h' : Extends (lines.withDependency m').info whole) (hm : m.replacement = none)
    (hm' : m'.replacement = none) : m' = m := by
  obtain ⟨m₁, hm₁, hversion, -⟩ := h.dependencies _ m List.getElem?_concat_length
  obtain ⟨m₂, hm₂, hversion', -⟩ := h'.dependencies _ m' List.getElem?_concat_length
  rw [hm₁] at hm₂
  cases hm₂
  cases m
  cases m'
  simp_all

theorem eq_of_extends_replacement {v v' : ModuleVersion} {i : Nat} {m : Module}
    (hm : lines.info.dependencies[i]? = some m) (h : Extends (lines.withReplacement i v).info whole)
    (h' : Extends (lines.withReplacement i v').info whole) : v' = v := by
  have hreplaced : ∀ v, (lines.withReplacement i v).info.dependencies[i]? =
      some { m with replacement := some v } := by
    intro v
    simp [Lines.dependencies_withReplacement, hm]
  obtain ⟨m₁, hm₁, -, hv⟩ := h.dependencies i _ (hreplaced v)
  obtain ⟨m₂, hm₂, -, hv'⟩ := h'.dependencies i _ (hreplaced v')
  rw [hm₁] at hm₂
  cases hm₂
  simp_all

theorem eq_of_extends_setting {s s' : Setting} (h : Extends (lines.withSetting s).info whole)
    (h' : Extends (lines.withSetting s').info whole) : s' = s := by
  have hs := h.settings _ s List.getElem?_concat_length
  have hs' := h'.settings _ s' List.getElem?_concat_length
  rw [hs] at hs'
  cases hs'
  rfl

/-- Where the whole line adds `a'`, its beginning is refused or has to add the same. -/
theorem keepsProvenance_reach_of_map {α : Type} {x : LineResult α} {f : α → Lines} {a' : α}
    (hadd : lines.add (Line.of line) = x.map f) (hbefore : KeepsProvenance all lines.info whole)
    (hfull : KeepsProvenance all (f a').info whole)
    (hsame : ∀ a, x = .ok a → Extends (f a).info whole → a' = a) :
    KeepsProvenance all (lines.reach [line]).info whole ↔ ∀ a, x = .ok a → a' = a := by
  cases x with
  | error fault =>
      rw [Lines.reach_of_refused hadd]
      exact iff_of_true hbefore nofun
  | ok a =>
      rw [Lines.reach_of_add hadd]
      constructor
      · rintro hkeeps _ ⟨⟩
        exact hsame a rfl hkeeps.toExtends
      · intro h
        rw [← h a rfl]
        exact hfull

theorem keepsProvenance_reach_main {columns : List Char} (hkind : Line.of line = .main columns)
    (hbefore : KeepsProvenance all lines.info whole) :
    KeepsProvenance all (lines.reach [line]).info whole ↔
      ∀ m, moduleOf columns = .ok m →
        m.toModuleVersion = {} ∨ StatedByMain all m.toModuleVersion := by
  have hadd := @Lines.add_main lines columns
  rw [← hkind] at hadd
  cases hm : moduleOf columns with
  | error fault =>
      rw [hm] at hadd
      rw [Lines.reach_of_refused hadd]
      exact iff_of_true hbefore nofun
  | ok m =>
      rw [hm] at hadd
      rw [Lines.reach_of_add hadd]
      constructor
      · rintro hkeeps _ ⟨⟩
        exact hkeeps.main
      · exact fun hmain => ⟨⟨hbefore.dependencies, hbefore.settings⟩, hmain m rfl⟩

/-- What replaces the main module is no part of its provenance. -/
theorem keepsProvenance_reach_mainReplacement {columns : List Char}
    (hkind : Line.of line = .replacement columns) (htarget : lines.target = some .main)
    (hbefore : KeepsProvenance all lines.info whole) :
    KeepsProvenance all (lines.reach [line]).info whole := by
  have hadd := Lines.add_mainReplacement htarget columns
  rw [← hkind] at hadd
  cases hv : replacementOf columns with
  | error fault =>
      rw [hv] at hadd
      rwa [Lines.reach_of_refused hadd]
  | ok v =>
      rw [hv] at hadd
      rw [Lines.reach_of_add hadd]
      exact ⟨⟨hbefore.dependencies, hbefore.settings⟩, hbefore.main⟩

/-- What the lines in front of a line and its beginning say is kept in the whole text exactly if the
line breaks off safely. -/
theorem keepsProvenance_reach_iff (h : lines.Traced all) (hline : line ++ rest ∈ all)
    (hadds : lines.Adds (Line.of (line ++ rest)) full) (hwhole : Extends full.info whole) :
    KeepsProvenance all (lines.reach [line]).info whole ↔
      (Line.of line).BreaksSafely all lines.target rest := by
  have hbefore : KeepsProvenance all lines.info whole :=
    h.keeps ((h.extends_add hadds).trans hwhole)
  have hfull : KeepsProvenance all full.info whole := (h.add hline hadds).keeps hwhole
  have hextended := @Line.of_append line rest
  cases hkind : Line.of line with
  | path text =>
      have hadd : lines.add (Line.of line) = lines.add (.path text) := congrArg lines.add hkind
      rw [Lines.reach_of_add hadd]
      exact iff_of_true ⟨⟨hbefore.dependencies, hbefore.settings⟩, hbefore.main⟩ trivial
  | other =>
      have hadd : lines.add (Line.of line) = lines.add .other := congrArg lines.add hkind
      rw [Lines.reach_of_add hadd]
      exact iff_of_true hbefore trivial
  | main columns => exact keepsProvenance_reach_main hkind hbefore
  | dependency columns =>
      rw [hkind] at hextended
      rw [hextended nofun] at hadds
      cases hadds with
      | dependency hm' =>
          refine (keepsProvenance_reach_of_map (hkind ▸ Lines.add_dependency columns) hbefore hfull
            fun m hm hkeeps => ?_).trans (moduleOf_beginning_iff hm')
          exact eq_of_extends_dependency hkeeps hfull.toExtends (replacement_of_moduleOf hm)
            (replacement_of_moduleOf hm')
  | replacement columns =>
      rw [hkind] at hextended
      rw [hextended nofun] at hadds
      cases hadds with
      | replaceMain hv' htarget =>
          exact iff_of_true (keepsProvenance_reach_mainReplacement hkind htarget hbefore)
            fun _ => .inl htarget
      | replaceDependency hv' htarget =>
          obtain ⟨m, hm, -⟩ := h.fresh _ htarget
          have hsafe : (Line.replacement columns).BreaksSafely all lines.target rest ↔
              (columns.count '\t' = 2 → rest = []) := by
            simp [Line.BreaksSafely, htarget]
          rw [hsafe]
          exact (keepsProvenance_reach_of_map (hkind ▸ Lines.add_replacement htarget columns)
            hbefore hfull fun v _ hkeeps =>
              eq_of_extends_replacement hm hkeeps hfull.toExtends).trans
                (replacementOf_beginning_iff hv')
  | setting text =>
      rw [hkind] at hextended
      rw [hextended nofun] at hadds
      cases hadds with
      | setting hs' =>
          exact (keepsProvenance_reach_of_map (hkind ▸ Lines.add_setting text) hbefore hfull
            fun s _ hkeeps => eq_of_extends_setting hkeeps hfull.toExtends).trans
              (settingOf_beginning_iff hs')

end Beginning

/-! ## Texts -/

/-- What a text says, up to the first line that is refused. -/
def said (text : String) : BuildInfo :=
  (finalState ((readText text).run {})).info

/-- The lines of a text that end in it. -/
def completeLines (text : String) : List (List Char) :=
  (pieces '\n' text.toList).dropLast

/-- What stands behind the last line end of a text. -/
def brokenLine (text : String) : List Char :=
  (pieces '\n' text.toList).getLastD []

/-- What stands in front of the first line end of a text. -/
def completion (text : String) : List Char :=
  (pieces '\n' text.toList).headD []

theorem exists_of_readLines_append {ls ls' : List (List Char)}
    (h : (readLines (ls ++ ls')).run lines = .ok () next) :
    ∃ mid, (readLines ls).run lines = .ok () mid ∧ (readLines ls').run mid = .ok () next := by
  induction ls generalizing lines with
  | nil => exact ⟨lines, rfl, h⟩
  | cons line ls ih =>
      obtain ⟨second, hadd, hrest⟩ := exists_of_readLines_cons h
      obtain ⟨mid, hmid, hnext⟩ := ih hrest
      exact ⟨mid, (readLines_cons hadd).trans hmid, hnext⟩

theorem readLines_append {ls : List (List Char)} (h : (readLines ls).run lines = .ok () next)
    (ls' : List (List Char)) : (readLines (ls ++ ls')).run lines = (readLines ls').run next := by
  induction ls generalizing lines with
  | nil =>
      cases h
      rfl
  | cons line ls ih =>
      obtain ⟨second, hadd, hrest⟩ := exists_of_readLines_cons h
      rw [List.cons_append, readLines_cons hadd, ih hrest]

/-- A line that is complete can be read for itself. -/
theorem breaksSafely_nil (hline : line ∈ all) (target : Option Target) :
    (Line.of line).BreaksSafely all target [] := by
  cases hkind : Line.of line with
  | path text => trivial
  | main columns => exact fun m hm => .inr ⟨line, hline, columns, m, hkind, hm, rfl⟩
  | dependency columns => exact fun _ => .inl rfl
  | replacement columns => exact fun _ => .inr rfl
  | setting text => exact fun _ _ _ => .inl rfl
  | other => trivial

/-- Where a text can be read, what its part in front of a cut says is kept in the whole text exactly
if the line at the cut breaks off safely. At the end of a line it always does. -/
theorem keepsProvenance_iff {a b : String} {whole : Lines}
    (hwhole : (readText (a ++ b)).run {} = .ok () whole) :
    (KeepsProvenance (pieces '\n' (a ++ b).toList) (said a) whole.info ↔
      (Line.of (brokenLine a)).BreaksSafely (pieces '\n' (a ++ b).toList)
        (({} : Lines).reach (completeLines a)).target (completion b)) ∧
    (completion b = [] →
      KeepsProvenance (pieces '\n' (a ++ b).toList) (said a) whole.info) := by
  obtain ⟨front, last, first, rest, ha, hb, hboth⟩ := exists_pieces_append '\n' a.toList b.toList
  rw [← String.toList_append] at hboth
  rw [readText, hboth] at hwhole
  obtain ⟨mid, hmid, hwhole⟩ := exists_of_readLines_append hwhole
  obtain ⟨full, hfull, hrest⟩ := exists_of_readLines_cons hwhole
  have hsaid : said a = (mid.reach [last]).info := by
    rw [said, readText, ha, readLines_append hmid]
    rfl
  have hreach : ({} : Lines).reach (completeLines a) = mid := by
    rw [completeLines, ha, List.dropLast_concat, Lines.reach, hmid]
    rfl
  have hbroken : brokenLine a = last := by rw [brokenLine, ha, List.getLastD_concat]
  have hcompletion : completion b = first := by rw [completion, hb, List.headD_cons]
  rw [hsaid, hreach, hbroken, hcompletion, hboth]
  have hline : last ++ first ∈ front ++ (last ++ first) :: rest := by simp
  have hadds := Lines.adds_of_add hfull
  obtain ⟨htraced, -⟩ := (Lines.Traced.empty _).run (List.subset_append_left front _) hmid
  have hrest' : rest ⊆ front ++ (last ++ first) :: rest :=
    fun _ h => List.mem_append_right _ (List.mem_cons_of_mem _ h)
  obtain ⟨-, hextends⟩ := (htraced.add hline hadds).run hrest' hrest
  have hiff := keepsProvenance_reach_iff htraced hline hadds hextends
  refine ⟨hiff, fun hempty => hiff.2 ?_⟩
  subst hempty
  exact breaksSafely_nil (by simp) _

/-! ## A version that breaks off -/

/-- A text of one line. -/
def dependencyText : String :=
  "dep\tlib\tv1.10.0\th1:x=\n"

theorem readText_dependencyText :
    (readText dependencyText).run {} =
      .ok () ⟨{ dependencies := [{ path := "lib", version := "v1.10.0", sum := "h1:x=" }] },
        some (.dependency 0)⟩ := by
  have hpieces : pieces '\n' dependencyText.toList = ["dep\tlib\tv1.10.0\th1:x=".toList, []] := by
    decide +kernel
  have hadd : ({} : Lines).add (Line.of "dep\tlib\tv1.10.0\th1:x=".toList) =
      .ok ⟨{ dependencies := [{ path := "lib", version := "v1.10.0", sum := "h1:x=" }] },
        some (.dependency 0)⟩ := eq_ok_of_toOption (by decide +kernel)
  rw [readText, hpieces, readLines_cons hadd]
  rfl

theorem said_versionBeginning :
    said "dep\tlib\tv1.1" = { dependencies := [{ path := "lib", version := "v1.1" }] } := by
  have hpieces : pieces '\n' "dep\tlib\tv1.1".toList = ["dep\tlib\tv1.1".toList] := by
    decide +kernel
  have hadd : ({} : Lines).add (Line.of "dep\tlib\tv1.1".toList) =
      .ok ⟨{ dependencies := [{ path := "lib", version := "v1.1" }] }, some (.dependency 0)⟩ :=
    eq_ok_of_toOption (by decide +kernel)
  rw [said, readText, hpieces]
  exact congrArg Lines.info (Lines.reach_of_add hadd)

/-- Inside the path of a module nothing is made up. -/
theorem keepsProvenance_pathBeginning :
    (readText ("dep\tli" ++ "b\tv1.10.0\th1:x=\n")).run {} =
      .ok () ⟨{ dependencies := [{ path := "lib", version := "v1.10.0", sum := "h1:x=" }] },
        some (.dependency 0)⟩ ∧
      KeepsProvenance (pieces '\n' ("dep\tli" ++ "b\tv1.10.0\th1:x=\n").toList) (said "dep\tli")
        { dependencies := [{ path := "lib", version := "v1.10.0", sum := "h1:x=" }] } := by
  have htext : "dep\tli" ++ "b\tv1.10.0\th1:x=\n" = dependencyText := by decide +kernel
  have hread := readText_dependencyText
  rw [← htext] at hread
  refine ⟨hread, (keepsProvenance_iff hread).1.2 ?_⟩
  have hline : Line.of (brokenLine "dep\tli") = .dependency ['l', 'i'] := by decide +kernel
  rw [hline]
  exact fun htab => absurd htab (by decide)

/-- Inside its version another version is. -/
theorem not_keepsProvenance_versionBeginning :
    (readText ("dep\tlib\tv1.1" ++ "0.0\th1:x=\n")).run {} =
      .ok () ⟨{ dependencies := [{ path := "lib", version := "v1.10.0", sum := "h1:x=" }] },
        some (.dependency 0)⟩ ∧
      said "dep\tlib\tv1.1" = { dependencies := [{ path := "lib", version := "v1.1" }] } ∧
      ¬ KeepsProvenance (pieces '\n' ("dep\tlib\tv1.1" ++ "0.0\th1:x=\n").toList)
        (said "dep\tlib\tv1.1")
        { dependencies := [{ path := "lib", version := "v1.10.0", sum := "h1:x=" }] } := by
  have htext : "dep\tlib\tv1.1" ++ "0.0\th1:x=\n" = dependencyText := by decide +kernel
  have hread := readText_dependencyText
  rw [← htext] at hread
  refine ⟨hread, said_versionBeginning, fun h => ?_⟩
  rw [said_versionBeginning] at h
  obtain ⟨m, hm, hversion, -⟩ := h.dependencies 0 _ rfl
  cases hm
  revert hversion
  decide

end GoImage.BuildInfo
