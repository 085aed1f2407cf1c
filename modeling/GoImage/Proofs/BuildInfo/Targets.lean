import GoImage.Proofs.BuildInfo.Provenance

/-! # What replacement lines replace

A text may be read in parts, and a line that is refused changes nothing. Whatever texts are fed one
after the other, some of them only up to such a line: a replacement goes into the module that the
nearest line before it has named, and into each module only once. -/

namespace GoImage.BuildInfo

open Text

variable {lines next after : Lines} {ls : List (List Char)} {said : List Line} {line : Line}

/-! ## Texts in parts -/

/-- A text behind another one goes on where that has ended. -/
theorem readText_append {first : String} (h : (readText first).run lines = .ok () next)
    (second : String) :
    (readText (first ++ "\n" ++ second)).run lines = (readText second).run next := by
  have hpieces : pieces '\n' (first ++ "\n" ++ second).toList =
      pieces '\n' first.toList ++ pieces '\n' second.toList := by
    rw [← pieces_append_cons]
    simp
  unfold readText at h ⊢
  rw [hpieces, readLines_append h]

/-- The reading of lines fails at the first one that is refused, with what those before it say. -/
theorem readLines_eq_error_iff {e : Error} :
    (readLines ls).run lines = .error e after ↔
      ∃ before line rest fault, ls = before ++ line :: rest ∧
        (readLines before).run lines = .ok () after ∧
        after.add (Line.of line) = .error fault ∧ e = .line fault (String.ofList line) := by
  induction ls generalizing lines with
  | nil => exact ⟨nofun, fun ⟨before, line, rest, _, hls, _⟩ => by simp at hls⟩
  | cons line ls ih =>
      cases hadd : lines.add (Line.of line) with
      | ok next =>
          rw [readLines_cons hadd, ih]
          constructor
          · rintro ⟨before, refused, rest, fault, rfl, hbefore, hrefused, rfl⟩
            exact ⟨line :: before, refused, rest, fault, rfl, readLines_cons hadd ▸ hbefore,
              hrefused, rfl⟩
          · rintro ⟨before, refused, rest, fault, hls, hbefore, hrefused, rfl⟩
            cases before with
            | nil =>
                cases hls
                cases hbefore
                rw [hadd] at hrefused
                cases hrefused
            | cons first before =>
                cases hls
                exact ⟨before, refused, rest, fault, rfl, readLines_cons hadd ▸ hbefore, hrefused,
                  rfl⟩
      | error fault =>
          rw [readLines_cons_of_refused hadd]
          constructor
          · rintro ⟨⟩
            exact ⟨[], line, ls, fault, rfl, rfl, hadd, rfl⟩
          · rintro ⟨before, refused, rest, fault', hls, hbefore, hrefused, rfl⟩
            cases before with
            | nil =>
                cases hls
                cases hbefore
                cases hadd.symm.trans hrefused
                rfl
            | cons first before =>
                cases hls
                rw [readLines_cons_of_refused hadd] at hbefore
                cases hbefore

/-! ## Texts one after the other -/

/-- Whether a line can change what a replacement would speak about. -/
def Line.setsTarget : Line → Bool
  | .main _ | .dependency _ | .replacement _ => true
  | .path _ | .setting _ | .other => false

/-- The last line that names a module or replaces one. -/
def nearest? (said : List Line) : Option Line :=
  said.reverse.find? Line.setsTarget

theorem nearest?_concat (said : List Line) (line : Line) :
    nearest? (said ++ [line]) = if line.setsTarget then some line else nearest? said := by
  unfold nearest?
  rw [List.reverse_append, List.reverse_singleton, List.singleton_append, List.find?_cons]
  cases line.setsTarget <;> rfl

/-- The lines that are taken in: all of them, up to the first one that is refused. -/
def Lines.taken (lines : Lines) : List (List Char) → List Line
  | [] => []
  | line :: ls =>
    match lines.add (Line.of line) with
    | .ok next => Line.of line :: next.taken ls
    | .error _ => []

/-- The lines that have been taken in, and what they say. -/
structure Feeding where
  said : List Line
  lines : Lines

/-- One more text. Whether it is read to its end or not, the next one goes on from there. -/
def Feeding.text (f : Feeding) (text : String) : Feeding :=
  { said := f.said ++ f.lines.taken (pieces '\n' text.toList)
    lines := finalState ((readText text).run f.lines) }

/-- Texts that are fed one after the other, on top of what is known already. -/
def feed (info : BuildInfo) (texts : List String) : Feeding :=
  texts.foldl Feeding.text { said := [], lines := { info } }

/-! ## The module that is remembered -/

/-- The remembered module is that of the nearest line which names one, just as the line says it, and
a dependency is the last one. None is remembered if the nearest line has replaced it. -/
inductive Aims (said : List Line) : Lines → Prop
  | nothing {info : BuildInfo}
      (h : ∀ line, nearest? said = some line → ∃ columns, line = .replacement columns) :
      Aims said ⟨info, none⟩
  | main {info : BuildInfo} {columns : List Char} (hnearest : nearest? said = some (.main columns))
      (hmodule : moduleOf columns = .ok info.main) : Aims said ⟨info, some .main⟩
  | dependency {info : BuildInfo} {columns : List Char} {front : List Module} {m : Module}
      (hnearest : nearest? said = some (.dependency columns)) (hmodule : moduleOf columns = .ok m)
      (hlast : info.dependencies = front ++ [m]) : Aims said ⟨info, some (.dependency front.length)⟩

namespace Aims

/-- Other lines than those which name or replace a module change nothing of it. -/
theorem of_same (h : Aims said lines) (hline : line.setsTarget = false)
    (htarget : next.target = lines.target) (hmain : next.info.main = lines.info.main)
    (hdependencies : next.info.dependencies = lines.info.dependencies) :
    Aims (said ++ [line]) next := by
  have hnearest : nearest? (said ++ [line]) = nearest? said := by
    rw [nearest?_concat, hline]
    rfl
  obtain ⟨info, target⟩ := next
  cases h with
  | nothing hnothing =>
      cases htarget
      exact .nothing (hnearest ▸ hnothing)
  | main hmain' hmodule =>
      cases htarget
      exact .main (hnearest.trans hmain') (hmodule.trans (congrArg _ hmain.symm))
  | dependency hdependency hmodule hlast =>
      cases htarget
      exact .dependency (hnearest.trans hdependency) hmodule (hdependencies.trans hlast)

theorem add (h : Aims said lines) (hadd : lines.Adds line next) : Aims (said ++ [line]) next := by
  cases hadd with
  | path text => exact h.of_same rfl rfl rfl rfl
  | main hmodule => exact .main (nearest?_concat said _) hmodule
  | dependency hmodule => exact .dependency (nearest?_concat said _) hmodule rfl
  | replaceMain | replaceDependency =>
      refine .nothing fun line hline => ?_
      rw [nearest?_concat] at hline
      exact ⟨_, (Option.some.inj hline).symm⟩
  | setting hs => exact h.of_same rfl rfl rfl rfl
  | other => exact h.of_same rfl rfl rfl rfl

/-- Reading lines keeps the aim, also where it stops at one of them. -/
theorem reach (h : Aims said lines) (ls : List (List Char)) :
    Aims (said ++ lines.taken ls) (lines.reach ls) := by
  induction ls generalizing said lines with
  | nil =>
      rw [Lines.taken, List.append_nil]
      exact h
  | cons line ls ih =>
      rw [Lines.taken]
      cases hadd : lines.add (Line.of line) with
      | ok next =>
          have hnext := ih (h.add (Lines.adds_of_add hadd))
          rw [Lines.reach, readLines_cons hadd]
          rwa [List.append_assoc, List.singleton_append] at hnext
      | error fault =>
          rw [Lines.reach_of_refused hadd, List.append_nil]
          exact h

theorem feed (info : BuildInfo) (texts : List String) :
    Aims (feed info texts).said (feed info texts).lines := by
  suffices hfold : ∀ f : Feeding, Aims f.said f.lines →
      Aims (texts.foldl Feeding.text f).said (texts.foldl Feeding.text f).lines from
    hfold _ (.nothing nofun)
  induction texts with
  | nil => exact fun _ hf => hf
  | cons text texts ih => exact fun f hf => ih (f.text text) (hf.reach _)

theorem length_dependencies (h : Aims said lines) {i : Nat}
    (htarget : lines.target = some (.dependency i)) : lines.info.dependencies.length = i + 1 := by
  cases h with
  | nothing | main => cases htarget
  | dependency hnearest hmodule hlast =>
      cases htarget
      rw [hlast, List.length_append, List.length_singleton]

end Aims

/-! ## Replacements -/

/-- The nearest line names a module, as it still stands, and the replacement of this module is all
that changes. Then none is remembered. -/
inductive Replaces (said : List Line) (info : BuildInfo) (v : ModuleVersion) : Lines → Prop
  | main {columns : List Char} (hnearest : nearest? said = some (.main columns))
      (hmodule : moduleOf columns = .ok info.main) :
      Replaces said info v ⟨{ info with main := { info.main with replacement := some v } }, none⟩
  | dependency {columns : List Char} {front : List Module} {m : Module}
      (hnearest : nearest? said = some (.dependency columns)) (hmodule : moduleOf columns = .ok m)
      (hlast : info.dependencies = front ++ [m]) :
      Replaces said info v
        ⟨{ info with dependencies := front ++ [{ m with replacement := some v }] }, none⟩

theorem Aims.add_replacement_iff (h : Aims said lines) (columns : List Char) :
    lines.add (.replacement columns) = .ok next ↔
      ∃ v, replacementOf columns = .ok v ∧ Replaces said lines.info v next := by
  cases h with
  | nothing hnothing =>
      constructor
      · intro hadd
        cases Lines.adds_of_add hadd with
        | replaceMain hv htarget | replaceDependency hv htarget => cases htarget
      · rintro ⟨v, -, hreplaces⟩
        cases hreplaces with
        | main hnearest | dependency hnearest =>
            obtain ⟨columns, heq⟩ := hnothing _ hnearest
            cases heq
  | @main info named hnearest hmodule =>
      constructor
      · intro hadd
        cases Lines.adds_of_add hadd with
        | replaceMain hv htarget => exact ⟨_, hv, .main hnearest hmodule⟩
        | replaceDependency hv htarget => cases htarget
      · rintro ⟨v, hv, hreplaces⟩
        cases hreplaces with
        | main => rw [Lines.add_mainReplacement rfl, hv]; rfl
        | dependency hnearest' => cases hnearest.symm.trans hnearest'
  | @dependency info named front m hnearest hmodule hlast =>
      have hmodify : ∀ v : ModuleVersion, Lines.withReplacement
          ⟨info, some (.dependency front.length)⟩ front.length v =
            ⟨{ info with dependencies := front ++ [{ m with replacement := some v }] }, none⟩ := by
        intro v
        unfold Lines.withReplacement
        rw [hlast, modify_length_append]
      constructor
      · intro hadd
        cases Lines.adds_of_add hadd with
        | replaceMain hv htarget => cases htarget
        | replaceDependency hv htarget =>
            cases htarget
            rw [hmodify]
            exact ⟨_, hv, .dependency hnearest hmodule hlast⟩
      · rintro ⟨v, hv, hreplaces⟩
        cases hreplaces with
        | main hnearest' => cases hnearest.symm.trans hnearest'
        | dependency hnearest' hmodule' hlast' =>
            obtain ⟨rfl, heq⟩ := List.append_inj' (hlast.symm.trans hlast') rfl
            cases heq
            rw [Lines.add_replacement rfl, hv]
            exact congrArg Except.ok (hmodify v)

/-- A text that is read to its end and another one behind it are read as one text. A text that is
not is read up to a line that is refused, and all that has changed is what the lines before that one
say. Whatever texts are fed to what is known already, read to their ends or not: a dependency that
is remembered is the last one, and a replacement is put, with no other change, into the module that
the nearest line before it has named, if no replacement has been since. -/
theorem feeding_replaces_nearest (info : BuildInfo) (texts : List String) :
    let f := feed info texts
    (∀ lines mid first second, (readText first).run lines = .ok () mid →
      (readText (first ++ "\n" ++ second)).run lines = (readText second).run mid) ∧
    (∀ lines after text e, (readText text).run lines = .error e after ↔
      ∃ before line rest fault, pieces '\n' text.toList = before ++ line :: rest ∧
        (readLines before).run lines = .ok () after ∧
        after.add (Line.of line) = .error fault ∧ e = .line fault (String.ofList line)) ∧
    (∀ i, f.lines.target = some (.dependency i) → f.lines.info.dependencies.length = i + 1) ∧
    ∀ columns next, f.lines.add (.replacement columns) = .ok next ↔
      ∃ v, replacementOf columns = .ok v ∧ Replaces f.said f.lines.info v next :=
  ⟨fun _ _ _ second h => readText_append h second, fun _ _ _ _ => readLines_eq_error_iff,
    fun _ => (Aims.feed info texts).length_dependencies,
    fun columns _ => (Aims.feed info texts).add_replacement_iff columns⟩

end GoImage.BuildInfo
