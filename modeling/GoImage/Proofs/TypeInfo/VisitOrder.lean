import GoImage.Proofs.TypeInfo.Fullest
import GoImage.Proofs.TypeInfo.Listing
import GoImage.Proofs.TypeInfo.PointerChain

/-! # Whether texts depend on the order of questions

The text of a type never gets shorter: asked again, a catalogue writes what it wrote before or
something fuller, up to the fullest text. So the order of questions makes no difference to a type
exactly if an empty catalogue writes its fullest text. -/

namespace GoImage.Catalogue

/-! ## Histories that make a type remembered -/

section Remembers

variable (r : TypeReader) (m : ModuleData)

/-- Whether a history makes every catalogue remember a type. -/
def Remembers (history : List Operation) (va : Nat) : Prop :=
  ∀ c, Sound r.read c → c.inProgress = [] → va ∈ (afterAll r m c history).rendered

variable {r m}

theorem Remembers.append_left {history : List Operation} {va : Nat}
    (h : Remembers r m history va) (before : List Operation) :
    Remembers r m (before ++ history) va := by
  intro c hc hprogress
  have hstep := afterAll_step r m before hc
  rw [afterAll_append]
  exact h _ hstep.sound (hstep.inProgress.trans hprogress)

theorem Remembers.append_right {history : List Operation} {va : Nat}
    (h : Remembers r m history va) (later : List Operation) :
    Remembers r m (history ++ later) va := by
  intro c hc hprogress
  rw [afterAll_append]
  exact (afterAll_step r m later (afterAll_step r m history hc).sound).rendered
    (h c hc hprogress)

/-- What can be made remembered one at a time can be made remembered at once. -/
theorem exists_remembers_all {P : Nat → Prop} (vas : List Nat)
    (h : ∀ va ∈ vas, P va → ∃ history, Remembers r m history va) :
    ∃ history, ∀ va ∈ vas, P va → Remembers r m history va := by
  induction vas with
  | nil => exact ⟨[], fun va hva => absurd hva List.not_mem_nil⟩
  | cons va vas ih =>
      obtain ⟨later, hlater⟩ := ih fun w hw => h w (List.mem_cons_of_mem va hw)
      by_cases hva : P va
      · obtain ⟨history, hhistory⟩ := h va List.mem_cons_self hva
        refine ⟨history ++ later, fun w hw hPw => ?_⟩
        rcases List.mem_cons.1 hw with rfl | hw
        · exact hhistory.append_right later
        · exact (hlater w hw hPw).append_left history
      · refine ⟨later, fun w hw hPw => ?_⟩
        rcases List.mem_cons.1 hw with rfl | hw
        · exact absurd hPw hva
        · exact hlater w hw hPw

/-- A type is remembered once it is asked for after all that it refers to. -/
theorem remembers_declaration {history : List Operation} {va : Nat} (hva : Unnamed r.read va)
    (hrefs : ∀ {w}, Refers r.read va w → Remembers r m history w) :
    Remembers r m (history ++ [.declaration va]) va := by
  intro c hc hprogress
  have hstep := afterAll_step r m history hc
  obtain ⟨d, hread, hd⟩ := hva
  rw [afterAll_append]
  generalize hafter : afterAll r m c history = c' at hstep ⊢
  have hc' := hstep.sound.remember va
  have hsame := hstep.sound.sameTexts_remember va
  have hva : va ∉ (c'.remember r.read va).inProgress := by
    rw [hsame.inProgress, hstep.inProgress, hprogress]
    exact List.not_mem_nil
  have hquiet := reference_quiet_of_refers hc' (maxDepth - 1) hva fun hw => by
    rw [hsame.rendered, ← hafter]
    exact hrefs hw c hc hprogress
  have hremembered := ((reference_plainUnlessCut r.read maxDepth va _ hc').2 hquiet).2
    ⟨d, hread, hd⟩
  change va ∈ ((declaration r.read va).run c').2.rendered
  rw [declaration_of_unnamed hstep.sound hread hd]
  exact hremembered

/-- Every type with a plain text can be made remembered, from the innermost types outwards. -/
theorem exists_remembers {va : Nat} (hva : Unnamed r.read va) {text : String}
    (h : plainReference r.read va = some text) : ∃ history, Remembers r m history va := by
  have hacc := acc_of_plainReference hva h
  clear h
  induction hacc with
  | intro va _ ih =>
      obtain ⟨d, hread, hd⟩ := hva
      obtain ⟨history, hhistory⟩ := exists_remembers_all (r := r) (m := m) (P := Unnamed r.read)
        (d.shape.inlineReferences (shapeAt? r.read)) fun w hw hw' => ih w ⟨d, hread, hw, hw'⟩ hw'
      have hrefs : ∀ {w}, Refers r.read va w → Remembers r m history w := by
        rintro w ⟨d', hread', hw, hw'⟩
        obtain rfl : d = d' := Except.ok.inj (hread.symm.trans hread')
        exact hhistory w hw hw'
      exact ⟨_, remembers_declaration ⟨d, hread, hd⟩ hrefs⟩

theorem exists_leadsIn_subset (read : Nat → Except Error Descriptor) (n va : Nat) :
    ∃ vas : List Nat, ∀ w, LeadsIn read n va w → w ∈ vas := by
  induction n generalizing va with
  | zero => exact ⟨[va], fun w hw => List.mem_singleton.2 hw.symm⟩
  | succ n ih =>
      choose f hf using ih
      cases hread : read va with
      | error e =>
          refine ⟨[], fun w hw => ?_⟩
          obtain ⟨u, ⟨d, hread', -⟩, -⟩ := hw
          cases hread.symm.trans hread'
      | ok d =>
          refine ⟨(d.shape.inlineReferences (shapeAt? read)).flatMap f, fun w hw => ?_⟩
          obtain ⟨u, ⟨d', hread', hu, -⟩, hw⟩ := hw
          obtain rfl : d = d' := Except.ok.inj (hread.symm.trans hread')
          exact List.mem_flatMap_of_mem hu (hf u w hw)

/-- There is a history after which a type is declared in full. -/
theorem exists_provided (n va : Nat) : ∃ history, ∀ c, Sound r.read c → c.inProgress = [] →
    Provided r.read (afterAll r m c history) n va := by
  obtain ⟨vas, hvas⟩ := exists_leadsIn_subset r.read n va
  obtain ⟨history, hhistory⟩ := exists_remembers_all (r := r) (m := m)
    (P := fun w => Unnamed r.read w ∧ ∃ text, plainReference r.read w = some text) vas
    fun w _ ⟨hw, text, htext⟩ => exists_remembers hw htext
  exact ⟨history, fun c hc hprogress w hw hunnamed text htext =>
    hhistory w (hvas w hw) ⟨hunnamed, text, htext⟩ c hc hprogress⟩

end Remembers

/-! ## The order of questions -/

/-- What an empty catalogue writes in full, every catalogue does. -/
theorem declaration_eq_of_fullest {r : TypeReader} (m : ModuleData) {va : Nat}
    (hfull : ((declaration r.read va).run {}).1 = fullestDeclaration r.read va) {c : Catalogue}
    (hc : Sound r.read c) (hprogress : c.inProgress = []) :
    ((declaration r.read va).run c).1 = fullestDeclaration r.read va := by
  obtain ⟨history, hprovided⟩ := exists_provided (r := r) (m := m) maxDepth va
  have hstep := afterAll_step r m history hc
  have hlater := declaration_fullest hstep.sound (hstep.inProgress.trans hprogress)
    (hprovided c hc hprogress)
  have hfresh : Fuller r.read {} c :=
    ⟨.empty r.read, hc, hprogress, fun hw => absurd hw Std.HashMap.not_mem_empty⟩
  have hfuller : Fuller r.read c (afterAll r m c history) :=
    ⟨hc, hstep.sound, hstep.inProgress, hstep.rendered⟩
  have hbelow := hfresh.noFuller_declaration va
  have habove := hfuller.noFuller_declaration va
  rw [hlater] at habove
  rw [hfull] at hbelow
  exact habove.antisymm hbelow

/-- The order of questions makes no difference to the text of a type exactly if an empty catalogue
writes its fullest text. Then the type is listed as it is declared alone. An empty catalogue does
so if exactly as many references as the depth limit allows lead to no type with a plain text. -/
theorem declaration_order_free_iff (r : TypeReader) (m : ModuleData) (va : Nat) :
    ((∀ history history' : List Operation,
        ((declaration r.read va).run (after r m history)).1 =
          ((declaration r.read va).run (after r m history')).1) ↔
      ((declaration r.read va).run {}).1 = fullestDeclaration r.read va) ∧
    (((declaration r.read va).run {}).1 = fullestDeclaration r.read va →
      ∀ (history : List Operation) (text : String),
        let listing := ((r.enumerate m).run (after r m history)).1
        (va, text) ∈ listing.types ∨ (va, text) ∈ listing.interfaces →
        ((manual r.read va).run {}).1 = [(va, text)]) ∧
    ((∀ w, LeadsIn r.read maxDepth va w → plainReference r.read w = none) →
      ((declaration r.read va).run {}).1 = fullestDeclaration r.read va) := by
  have hfresh := Sound.empty r.read
  refine ⟨⟨fun horder => ?_, fun hfull history history' => ?_⟩, fun hfull history text => ?_,
    fun hdeep => ?_⟩
  · -- After some history all is written in full, and before it just the same.
    obtain ⟨history, hprovided⟩ := exists_provided (r := r) (m := m) maxDepth va
    have hlater := declaration_fullest (sound_after r m history) (inProgress_after r m history)
      (hprovided {} hfresh rfl)
    exact (horder [] history).trans hlater
  · rw [declaration_eq_of_fullest m hfull (sound_after r m history) (inProgress_after r m history),
      declaration_eq_of_fullest m hfull (sound_after r m history') (inProgress_after r m history')]
  · intro listing h
    obtain ⟨c, hc, hprogress, htext⟩ := TypeReader.mem_enumerate (sound_after r m history)
      (inProgress_after r m history) h
    rw [declaration_eq_of_fullest m hfull hc hprogress, ← hfull] at htext
    exact congrArg (fun text => [(va, text)]) htext.symm
  · exact declaration_fullest hfresh rfl fun w hw _ text htext => by
      rw [hdeep w hw] at htext
      cases htext

/-- The record of a module that lists no types. -/
def bareModule : ModuleData :=
  { va := 0, layout := .go1_20, functionTable := 0, ftab := ⟨0, 0, 0⟩, filetab := ⟨0, 0, 0⟩
    minpc := 0, maxpc := 0, text := 0, etext := 0, types := 0, etypes := 0
    typelinks := ⟨0, 0, 0⟩, itablinks := ⟨0, 0, 0⟩ }

/-- A chain of pointers that is one too deep is written in full once its last link is remembered. -/
theorem declaration_after_pointerChain (r : TypeReader) (m : ModuleData) {va : Nat → Nat}
    (h : PointerChain r.read va (maxDepth + 1)) (hlast : ¬ Unnamed r.read (va (maxDepth + 1)))
    {text : String} (htext : plainReference r.read (va (maxDepth + 1)) = some text) :
    ((declaration r.read (va 0)).run (after r m [.declaration (va maxDepth)])).1 =
      stars (maxDepth + 1) text := by
  have hdeepest := h.unnamed (Nat.lt_succ_self maxDepth)
  have hremembers : Remembers r m ([] ++ [.declaration (va maxDepth)]) (va maxDepth) := by
    refine remembers_declaration hdeepest fun hw => ?_
    obtain ⟨d, -, -, hw'⟩ := id hw
    exact absurd (h.eq_of_refers (Nat.lt_succ_self maxDepth) hw ▸ hw') hlast
  have hprovided : Provided r.read (after r m [.declaration (va maxDepth)]) maxDepth (va 0) := by
    intro w hw _ _ _
    rw [h.eq_of_leadsIn (by omega) hw, Nat.zero_add]
    exact hremembers {} (.empty r.read) rfl
  have hplain := h.plainReference_eq htext (i := 0) (Nat.zero_add _)
  obtain ⟨d, hread, hd, -⟩ := h 0 (Nat.succ_pos maxDepth)
  rw [declaration_fullest (sound_after r m _) (inProgress_after r m _) hprovided]
  unfold fullestDeclaration
  rw [hread]
  dsimp only
  rw [if_neg (by simp [hd]), fullestReference_of_plain hplain]

/-- Asked for first, a chain of pointers that is one too deep is cut; asked for after its last
link, it is not. -/
theorem declaration_chainImage_ne :
    let r := TypeReader.ofModule (chainImage (maxDepth + 1)) bareModule (some 20)
    let asked := fun history =>
      ((declaration r.read (linkAddress 0)).run (after r bareModule history)).1
    Image.ofBytes r.image.data = .ok r.image ∧
      asked [] = stars maxDepth (backReferenceText (linkAddress maxDepth)) ∧
      asked [.declaration (linkAddress maxDepth)] =
        stars (maxDepth + 1) (invalidText (linkAddress (maxDepth + 1))) ∧
      asked [] ≠ asked [.declaration (linkAddress maxDepth)] := by
  intro r asked
  have hchain : PointerChain r.read linkAddress (maxDepth + 1) :=
    pointerChain_chainImage rfl (by decide)
  have hend := read_linkAddress_end (r := r) (n := maxDepth + 1) rfl
  have hfirst : asked [] = _ :=
    declaration_pointerChain hchain linkAddress_injective (Nat.lt_succ_self maxDepth)
  have hlater : asked [.declaration (linkAddress maxDepth)] = _ :=
    declaration_after_pointerChain r bareModule hchain
      (fun ⟨d, hread, _⟩ => by cases hend.symm.trans hread) (plainReference_of_error hend)
  refine ⟨ofBytes_chainImage (by decide), hfirst, hlater, ?_⟩
  rw [hfirst, hlater]
  decide

end GoImage.Catalogue
