import GoImage.Proofs.Image.Named
import GoImage.Proofs.TypeInfo.Discovery
import GoImage.Proofs.TypeInfo.Finishing
import GoImage.Proofs.TypeInfo.Fuller
import Mathlib.Data.List.Sort

/-! # Listings

A listing has an entry for every type that the link tables lead to, readable or not, and for every
interface that a method table names. Where a link table leads to less, entries are missing, and what
is left of the listing says no more than it did. -/

namespace GoImage

namespace Catalogue

/-! ## Entries -/

theorem map_fst_entries (read : Nat → Except Error Descriptor) (vas : List Nat) (c : Catalogue) :
    ((entries read vas).run c).1.map (·.1) = vas := by
  induction vas generalizing c with
  | nil => rfl
  | cons va vas ih =>
      unfold entries at ih ⊢
      rw [List.mapM_cons]
      exact congrArg (va :: ·) (ih ((declaration read va).run c).2)

/-- Every entry of a list is a declaration by some catalogue. -/
theorem mem_entries {read : Nat → Except Error Descriptor} {vas : List Nat} {c : Catalogue}
    (hc : Sound read c) (hprogress : c.inProgress = []) {entry : Nat × String}
    (h : entry ∈ ((entries read vas).run c).1) :
    ∃ c', Sound read c' ∧ c'.inProgress = [] ∧
      entry.2 = ((declaration read entry.1).run c').1 := by
  induction vas generalizing c with
  | nil => exact absurd h List.not_mem_nil
  | cons va vas ih =>
      have hstep := (declaration_plainUnlessCut hc va).1
      unfold entries at h
      rw [List.mapM_cons] at h
      rcases List.mem_cons.1 h with rfl | h
      · exact ⟨c, hc, hprogress, rfl⟩
      · exact ih hstep.sound (hstep.inProgress.trans hprogress) h

/-- All entries of a list are in another one, where they say no less. -/
def NoFullerThan (l l' : List (Nat × String)) : Prop :=
  ∀ va text, (va, text) ∈ l → ∃ text', (va, text') ∈ l' ∧ NoFuller text text'

theorem NoFullerThan.refl (l : List (Nat × String)) : NoFullerThan l l :=
  fun _ text h => ⟨text, h, .inl rfl⟩

/-- Of two catalogues, the one that remembers more declares more types, and no type in less. -/
theorem Fuller.entries {read : Nat → Except Error Descriptor} {vas vas' : List Nat}
    (hsub : vas.Sublist vas') {c c' : Catalogue} (h : Fuller read c c') :
    NoFullerThan ((Catalogue.entries read vas).run c).1 ((Catalogue.entries read vas').run c').1 ∧
      Fuller read ((Catalogue.entries read vas).run c).2
        ((Catalogue.entries read vas').run c').2 := by
  unfold Catalogue.entries
  induction hsub generalizing c c' with
  | slnil => exact ⟨fun _ _ hmem => absurd hmem List.not_mem_nil, h⟩
  | cons va _ ih =>
      have hstep := (declaration_plainUnlessCut h.sound' va).1
      have hmore : Fuller read c ((Catalogue.declaration read va).run c').2 :=
        ⟨h.sound, hstep.sound, hstep.inProgress.trans h.inProgress,
          fun hw => hstep.rendered (h.rendered hw)⟩
      obtain ⟨hentries, hfuller⟩ := ih hmore
      rw [List.mapM_cons]
      refine ⟨fun w text hmem => ?_, hfuller⟩
      obtain ⟨text', hmem', htext⟩ := hentries w text hmem
      exact ⟨text', List.mem_cons_of_mem _ hmem', htext⟩
  | cons_cons va _ ih =>
      obtain ⟨hentries, hfuller⟩ := ih (h.declaration va)
      rw [List.mapM_cons, List.mapM_cons]
      refine ⟨fun w text hmem => ?_, hfuller⟩
      rcases List.mem_cons.1 hmem with heq | hmem
      · cases heq
        exact ⟨_, List.mem_cons_self, h.noFuller_declaration va⟩
      · obtain ⟨text', hmem', htext⟩ := hentries w text hmem
        exact ⟨text', List.mem_cons_of_mem _ hmem', htext⟩

end Catalogue

theorem sublist_of_subset {vas vas' : List Nat} (h : vas.Pairwise (· < ·))
    (h' : vas'.Pairwise (· < ·)) (hsub : vas ⊆ vas') : vas.Sublist vas' :=
  List.sublist_of_subperm_of_pairwise (List.subperm_of_subset h.nodup hsub) h h'

theorem pairwise_ascending (vas : List Nat) : (ascending vas).Pairwise (· < ·) :=
  Catalogue.pairwise_toList _

namespace TypeReader

open Catalogue

/-! ## Listings from what the link tables come to -/

/-- A listing, given what reading the link tables comes to. -/
def listing (r : TypeReader) (typelinks : Except Error (List Nat))
    (itabs : Except Error (List (Nat × Nat))) : Cataloguing TypeListing := do
  let (roots, rootWarnings) := orWarn .typelinks [] typelinks
  let (itabs, itabWarnings) := orWarn .itablinks [] itabs
  let types ← Catalogue.entries r.read (← r.reachable (roots ++ itabs.map (·.2)))
  let interfaces ← Catalogue.entries r.read (ascending (itabs.map (·.1)))
  return { types, interfaces, warnings := rootWarnings ++ itabWarnings }

theorem enumerate_eq_listing (r : TypeReader) (m : ModuleData) :
    r.enumerate m = r.listing (r.typelinks m) (r.itabs m) :=
  rfl

/-- The types that the link tables name; none where a table cannot be read. -/
def roots (typelinks : Except Error (List Nat)) (itabs : Except Error (List (Nat × Nat))) :
    List Nat :=
  typelinks.toOption.getD [] ++ (itabs.toOption.getD []).map (·.2)

/-- The interfaces that method tables name. -/
def interfaces (itabs : Except Error (List (Nat × Nat))) : List Nat :=
  ascending ((itabs.toOption.getD []).map (·.1))

section Listing

variable (r : TypeReader) (typelinks : Except Error (List Nat))
variable (itabs : Except Error (List (Nat × Nat))) (c : Catalogue)

/-- A listing in two steps: the types, and from what is remembered then the interfaces. -/
theorem run_listing :
    let found := (r.reachable (roots typelinks itabs)).run c
    let types := (Catalogue.entries r.read found.1).run found.2
    let listed := (r.listing typelinks itabs).run c
    listed.1.types = types.1 ∧
      listed.1.interfaces = ((Catalogue.entries r.read (interfaces itabs)).run types.2).1 := by
  cases typelinks <;> cases itabs <;> exact ⟨rfl, rfl⟩

variable {c}

/-- Every entry of a listing is a declaration by some catalogue. -/
theorem mem_listing (hc : Sound r.read c) (hprogress : c.inProgress = []) {va : Nat}
    {text : String}
    (h : (va, text) ∈ ((r.listing typelinks itabs).run c).1.types ∨
      (va, text) ∈ ((r.listing typelinks itabs).run c).1.interfaces) :
    ∃ c', Sound r.read c' ∧ c'.inProgress = [] ∧
      text = ((Catalogue.declaration r.read va).run c').1 := by
  obtain ⟨htypes, hinterfaces⟩ := run_listing r typelinks itabs c
  have hfound := Keeps.reachable r (roots typelinks itabs) c hc
  have hentries := Keeps.entries ((r.reachable (roots typelinks itabs)).run c).1 _ hfound.sound
  have hstep := hfound.trans hentries
  rcases h with h | h
  · rw [htypes] at h
    exact mem_entries hfound.sound (hfound.inProgress.trans hprogress) h
  · rw [hinterfaces] at h
    exact mem_entries hstep.sound (hstep.inProgress.trans hprogress) h

theorem mem_enumerate {r : TypeReader} {m : ModuleData} (hc : Sound r.read c)
    (hprogress : c.inProgress = []) {va : Nat} {text : String}
    (h : (va, text) ∈ ((r.enumerate m).run c).1.types ∨
      (va, text) ∈ ((r.enumerate m).run c).1.interfaces) :
    ∃ c', Sound r.read c' ∧ c'.inProgress = [] ∧
      text = ((Catalogue.declaration r.read va).run c').1 := by
  rw [enumerate_eq_listing] at h
  exact mem_listing r (r.typelinks m) (r.itabs m) hc hprogress h

/-- The listed types are those that the link tables lead to, the listed interfaces those that method
tables name, by ascending address. -/
theorem listing_addresses (hc : Sound r.read c) :
    let listed := ((r.listing typelinks itabs).run c).1
    ((listed.types.map (·.1)).Pairwise (· < ·) ∧
      ∀ va, va ∈ listed.types.map (·.1) ↔ Reached r.read (roots typelinks itabs) va) ∧
    listed.interfaces.map (·.1) = interfaces itabs := by
  intro listed
  obtain ⟨htypes, hinterfaces⟩ := run_listing r typelinks itabs c
  rw [show listed.types = _ from htypes, show listed.interfaces = _ from hinterfaces,
    map_fst_entries, map_fst_entries]
  exact ⟨r.reachable_spec (roots typelinks itabs) hc, rfl⟩

/-- Only what cannot be read is listed with an empty text. -/
theorem listing_text_eq_empty_iff (hc : Sound r.read c) (hprogress : c.inProgress = []) {va : Nat}
    {text : String}
    (h : (va, text) ∈ ((r.listing typelinks itabs).run c).1.types ∨
      (va, text) ∈ ((r.listing typelinks itabs).run c).1.interfaces) :
    text = "" ↔ ∃ e, r.read va = .error e := by
  obtain ⟨c', hc', hprogress', rfl⟩ := mem_listing r typelinks itabs hc hprogress h
  exact declaration_eq_empty_iff hc' hprogress' va

/-- Where the link tables come to less, less is listed, and what is still listed says no more. -/
theorem listing_noFullerThan {typelinks typelinks' : Except Error (List Nat)}
    {itabs itabs' : Except Error (List (Nat × Nat))}
    (hroots : roots typelinks itabs ⊆ roots typelinks' itabs')
    (hinterfaces : interfaces itabs ⊆ interfaces itabs') (hc : Sound r.read c) :
    let listed := ((r.listing typelinks itabs).run c).1
    let listed' := ((r.listing typelinks' itabs').run c).1
    NoFullerThan listed.types listed'.types ∧
      NoFullerThan listed.interfaces listed'.interfaces := by
  intro listed listed'
  obtain ⟨htypes, hinterfaces₁⟩ := run_listing r typelinks itabs c
  obtain ⟨htypes', hinterfaces₁'⟩ := run_listing r typelinks' itabs' c
  rw [show listed.types = _ from htypes, show listed.interfaces = _ from hinterfaces₁,
    show listed'.types = _ from htypes', show listed'.interfaces = _ from hinterfaces₁']
  obtain ⟨hsorted, hmem⟩ := r.reachable_spec (roots typelinks itabs) hc
  obtain ⟨hsorted', hmem'⟩ := r.reachable_spec (roots typelinks' itabs') hc
  have hsub := sublist_of_subset hsorted hsorted' fun va hva =>
    (hmem' va).2 (((hmem va).1 hva).mono hroots)
  -- Both searches remember the same texts, since they write none.
  have hsame := sameTexts_discover r.discoveryRoom {} (roots typelinks itabs) hc
  have hsame' := sameTexts_discover r.discoveryRoom {} (roots typelinks' itabs') hc
  have hfuller : Fuller r.read ((r.reachable (roots typelinks itabs)).run c).2
      ((r.reachable (roots typelinks' itabs')).run c).2 := by
    refine ⟨(Keeps.reachable r _ c hc).sound, (Keeps.reachable r _ c hc).sound,
      hsame'.inProgress.trans hsame.inProgress.symm, fun hw => ?_⟩
    exact hsame'.rendered.symm ▸ hsame.rendered ▸ hw
  obtain ⟨htypes, hfuller⟩ := hfuller.entries hsub
  exact ⟨htypes, (hfuller.entries (sublist_of_subset (pairwise_ascending _)
    (pairwise_ascending _) hinterfaces)).1⟩

end Listing

/-! ## The least closed set -/

end TypeReader
end GoImage
