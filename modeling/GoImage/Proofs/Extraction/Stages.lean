import GoImage.Proofs.BuildInfo.Outcome
import GoImage.Proofs.Extraction.Functions
import GoImage.Proofs.TypeInfo.Listing

/-! # What a failing stage costs

Extraction fails where the function table cannot be found or read, or the module record cannot be
found. Every later stage may fail, alone or with others: the answer then lacks what the stage would
have given, and is otherwise what it would have been. -/

namespace GoImage.Extraction

open Catalogue TypeReader

/-! ## The stages behind the module record -/

/-- What the stages behind the module record come to. -/
structure Stages where
  buildInfo : BuildInfo × List Warning
  functions : Except Error (List FunctionTable.Function)
  files : Except Error (List String)
  typelinks : Except Error (List Nat)
  itabs : Except Error (List (Nat × Nat))

/-- How types are read; the build information settles it as far as it knows a release. -/
def reader (image : Image) (options : Options) (m : ModuleData) (info : BuildInfo) : TypeReader :=
  TypeReader.ofModule image m (minor? info options)

/-- What the stages come to in an image with this build information. -/
def stages (image : Image) (options : Options) (table : FunctionTable) (m : ModuleData)
    (found : BuildInfo × List Warning) : Stages :=
  let r := reader image options m found.1
  { buildInfo := found
    functions := table.functions m.text
    files := table.files
    typelinks := r.typelinks m
    itabs := r.itabs m }

/-- The types of an answer, given what the link tables come to. -/
def listed (options : Options) (r : TypeReader) (s : Stages) : TypeListing :=
  match options.manualType.filter (· ≠ 0) with
  | some va => { types := ((manual r.read va).run {}).1 }
  | none => if options.types then ((r.listing s.typelinks s.itabs).run {}).1 else {}

/-- The answer, given what the stages come to. -/
def combine (image : Image) (options : Options) (table : FunctionTable) (m : ModuleData)
    (s : Stages) : Metadata × List Warning :=
  let (info, infoWarnings) := s.buildInfo
  let (functions, functionWarnings) := orWarn .functions [] s.functions
  let (files, fileWarnings) := if options.files then orWarn .files [] s.files else ([], [])
  let listing := listed options (reader image options m info) s
  ({ version := version info options table.header.layout
     arch := (info.setting? "GOARCH").getD image.arch
     os := (info.setting? "GOOS").getD image.os
     buildInfo := info
     types := listing.types
     interfaces := listing.interfaces
     files
     userFunctions := userFunctions functions
     standardFunctions :=
       if options.standardFunctions then standardFunctions functions else []
     table := table.header.summary image.order
     module := m.summary },
   infoWarnings ++ functionWarnings ++ fileWarnings ++ listing.warnings)

theorem assemble_eq_combine (image : Image) (options : Options) (table : FunctionTable)
    (m : ModuleData) (found : BuildInfo × List Warning) :
    assemble image options table m found =
      combine image options table m (stages image options table m found) :=
  rfl

/-- The build information costs the answer only where reading it aborts the run. -/
theorem buildInfo_eq_error_iff {image : Image} {e : Error} :
    buildInfo image = .error e ↔
      e = .aborted ∧ ∃ info, (BuildInfo.read image).run {} = .error .aborted info := by
  unfold buildInfo
  cases (BuildInfo.read image).run {} with
  | ok u info => exact ⟨nofun, fun ⟨_, _, h⟩ => nomatch h⟩
  | error e' info =>
      cases e' with
      | aborted => exact ⟨fun h => ⟨(Except.error.inj h).symm, info, rfl⟩, fun h => by rw [h.1]⟩
      | _ => exact ⟨nofun, fun ⟨_, _, h⟩ => nomatch h⟩

theorem exists_buildInfo {image : Image}
    (h : ∀ info, (BuildInfo.read image).run {} ≠ .error .aborted info) :
    ∃ found, buildInfo image = .ok found := by
  cases hfound : buildInfo image with
  | ok found => exact ⟨found, rfl⟩
  | error e =>
      obtain ⟨-, info, habort⟩ := buildInfo_eq_error_iff.1 hfound
      exact absurd habort (h info)

/-! ## Types -/

/-- All that is lost of a list is what lost roots led to and the others do not; what is left says no
more than it did. -/
structure LosesOnly (read : Nat → Except Error Descriptor) (lost others : List Nat)
    (before after : List (Nat × String)) : Prop where
  left : NoFullerThan after before
  lost : ∀ va ∈ before.map (·.1), va ∉ after.map (·.1) →
    Reached read lost va ∧ ¬ Reached read others va

theorem LosesOnly.refl (read : Nat → Except Error Descriptor) (lost others : List Nat)
    (l : List (Nat × String)) : LosesOnly read lost others l l :=
  ⟨.refl l, fun _ hva hva' => absurd hva hva'⟩

section Listed

variable (options : Options) (r : TypeReader) (s : Stages)

theorem listed_of_manual {va : Nat} (h : options.manualType.filter (· ≠ 0) = some va) :
    listed options r s = { types := ((manual r.read va).run {}).1 } := by
  unfold listed
  rw [h]

theorem listed_of_none (h : options.manualType.filter (· ≠ 0) = none) :
    listed options r s =
      if options.types then ((r.listing s.typelinks s.itabs).run {}).1 else {} := by
  unfold listed
  rw [h]

/-- Where link tables come to less, only the entries are lost that what is lost alone leads to. -/
theorem listed_losesOnly (s' : Stages) (lost : List Nat)
    (hroots : roots s'.typelinks s'.itabs ⊆ roots s.typelinks s.itabs)
    (hlost : roots s.typelinks s.itabs ⊆ lost ++ roots s'.typelinks s'.itabs)
    (hinterfaces : interfaces s'.itabs ⊆ interfaces s.itabs) :
    LosesOnly r.read lost (roots s'.typelinks s'.itabs) (listed options r s).types
        (listed options r s').types ∧
      NoFullerThan (listed options r s').interfaces (listed options r s).interfaces := by
  cases hmanual : options.manualType.filter (· ≠ 0) with
  | some va =>
      rw [listed_of_manual options r s hmanual, listed_of_manual options r s' hmanual]
      exact ⟨.refl _ _ _ _, .refl _⟩
  | none =>
      rw [listed_of_none options r s hmanual, listed_of_none options r s' hmanual]
      cases options.types with
      | false => exact ⟨.refl _ _ _ _, .refl _⟩
      | true =>
          have hc := Sound.empty r.read
          obtain ⟨htypes, hinterfaces⟩ := r.listing_noFullerThan hroots hinterfaces hc
          obtain ⟨⟨-, hmem⟩, -⟩ := r.listing_addresses s.typelinks s.itabs hc
          obtain ⟨⟨-, hmem'⟩, -⟩ := r.listing_addresses s'.typelinks s'.itabs hc
          refine ⟨⟨htypes, fun va hva hva' => ?_⟩, hinterfaces⟩
          have hothers : ¬ Reached r.read (roots s'.typelinks s'.itabs) va :=
            fun h => hva' ((hmem' va).2 h)
          have hreached := ((hmem va).1 hva).mono hlost
          exact ⟨(Reached.append_iff.1 hreached).resolve_right hothers, hothers⟩

/-- Which types and interfaces are listed, and which of them with an empty text. -/
structure ListsAll (options : Options) (r : TypeReader) (s : Stages)
    (types interfaces : List (Nat × String)) : Prop where
  manual : ∀ va, options.manualType.filter (· ≠ 0) = some va →
    types.map (·.1) = [va] ∧ interfaces = []
  off : options.manualType.filter (· ≠ 0) = none → options.types = false →
    types = [] ∧ interfaces = []
  on : options.manualType.filter (· ≠ 0) = none → options.types = true →
    (∀ va, va ∈ types.map (·.1) ↔ Reached r.read (roots s.typelinks s.itabs) va) ∧
      interfaces.map (·.1) = TypeReader.interfaces s.itabs
  empty : ∀ va text, (va, text) ∈ types ∨ (va, text) ∈ interfaces →
    (text = "" ↔ ∃ e, r.read va = .error e)

theorem listed_listsAll :
    ListsAll options r s (listed options r s).types (listed options r s).interfaces := by
  have hc := Sound.empty r.read
  cases hmanual : options.manualType.filter (· ≠ 0) with
  | some va =>
      rw [listed_of_manual options r s hmanual]
      refine ⟨fun va' h => ?_, fun h => ?_, fun h => ?_, fun va' text h => ?_⟩
      · obtain rfl : va = va' := Option.some.inj (hmanual.symm.trans h)
        exact ⟨rfl, rfl⟩
      · cases hmanual.symm.trans h
      · cases hmanual.symm.trans h
      · obtain ⟨c', hc', hprogress, htext⟩ :=
          mem_entries hc rfl (h.resolve_right List.not_mem_nil)
        dsimp only at htext
        rw [htext]
        exact declaration_eq_empty_iff hc' hprogress va'
  | none =>
      rw [listed_of_none options r s hmanual]
      cases htypes : options.types with
      | false =>
          refine ⟨fun va h => ?_, fun _ _ => ⟨rfl, rfl⟩, fun _ h => ?_, fun va text h => ?_⟩
          · cases hmanual.symm.trans h
          · cases htypes.symm.trans h
          · exact absurd h (not_or.2 ⟨List.not_mem_nil, List.not_mem_nil⟩)
      | true =>
          obtain ⟨⟨-, hmem⟩, hinterfaces⟩ := r.listing_addresses s.typelinks s.itabs hc
          refine ⟨fun va h => ?_, fun _ h => ?_, fun _ _ => ⟨hmem, hinterfaces⟩,
            fun va text h => ?_⟩
          · cases hmanual.symm.trans h
          · cases htypes.symm.trans h
          · exact listing_text_eq_empty_iff r s.typelinks s.itabs hc rfl h

/-- The links to method tables alone settle which interfaces are listed. -/
theorem map_fst_interfaces_listed :
    (listed options r s).interfaces.map (·.1) =
      if options.manualType.filter (· ≠ 0) = none ∧ options.types = true then interfaces s.itabs
      else [] := by
  have hall := listed_listsAll options r s
  cases hmanual : options.manualType.filter (· ≠ 0) with
  | some va => simp [(hall.manual va hmanual).2]
  | none =>
      cases htypes : options.types with
      | false => simp [(hall.off hmanual htypes).2]
      | true => simp [(hall.on hmanual htypes).2]

theorem interfaces_listed_of_error {e : Error} (h : s.itabs = .error e) :
    (listed options r s).interfaces = [] := by
  have hmap := map_fst_interfaces_listed options r s
  have hnone : interfaces s.itabs = [] := by
    rw [h]
    rfl
  rw [hnone, ite_self] at hmap
  exact List.map_eq_nil_iff.1 hmap

end Listed

/-! ## Lists of their own stages -/

section Combine

variable (image : Image) (options : Options) (table : FunctionTable) (m : ModuleData) (s : Stages)
variable (e : Error)

theorem combine_without_functions :
    (combine image options table m { s with functions := .error e }).1 =
      { (combine image options table m s).1 with
        userFunctions := [], standardFunctions := [] } := by
  have hnone : (if options.standardFunctions then standardFunctions [] else []) = [] := by
    split <;> rfl
  exact congrArg (fun functions => { (combine image options table m s).1 with
    userFunctions := [], standardFunctions := functions }) hnone

theorem combine_without_files :
    (combine image options table m { s with files := .error e }).1 =
      { (combine image options table m s).1 with files := [] } := by
  have hnone : (if options.files then orWarn .files [] (.error e) else ([], [])).1 =
      ([] : List String) := by
    split <;> rfl
  exact congrArg (fun files => { (combine image options table m s).1 with files }) hnone

end Combine

/-! ## The whole extraction -/

/-- Extraction fails where one of the first three stages does, with the error of the first one that
fails. Behind them only an aborted run keeps back the answer. -/
theorem extract_eq_error_iff {image : Image} {options : Options} {e : Error} :
    extract image options = .error e ↔
      FunctionTable.locate image options.release = .error e ∨
      ∃ location, FunctionTable.locate image options.release = .ok location ∧
        (FunctionTable.read image location.va location.layout = .error e ∨
        ∃ table, FunctionTable.read image location.va location.layout = .ok table ∧
          (ModuleData.locate image table.header = .error e ∨
          ∃ found, ModuleData.locate image table.header = .ok found ∧ e = .aborted ∧
            ∃ info, (BuildInfo.read image).run {} = .error .aborted info)) := by
  unfold extract
  rw [bind_eq_error_iff]
  refine or_congr .rfl (exists_congr fun location => and_congr_right fun _ => ?_)
  rw [bind_eq_error_iff]
  refine or_congr .rfl (exists_congr fun table => and_congr_right fun _ => ?_)
  rw [bind_eq_error_iff]
  refine or_congr .rfl (exists_congr fun found => and_congr_right fun _ => ?_)
  rw [← buildInfo_eq_error_iff]
  change buildInfo image >>= _ = _ ↔ _
  rw [bind_eq_error_iff]
  exact or_iff_left fun ⟨_, _, h⟩ => nomatch h

/-- Extraction fails where the function table cannot be found, or cannot be read, or the module
record cannot be found, with the error of the first of these. Behind them it fails only where
reading the build information aborts the run, which is never so where sections are separate.
Otherwise there is an answer, whatever the later stages come to: without the functions only the two
lists of functions are empty, without the files only the list of files; without the links to types,
or those to method tables, of the types and interfaces only those are lost that these links alone
lead to; and every type that is reached has its entry, empty if and only if it cannot be read. -/
theorem later_stages_degrade (image : Image) (options : Options) :
    (∀ e, extract image options = .error e ↔
      FunctionTable.locate image options.release = .error e ∨
      ∃ location, FunctionTable.locate image options.release = .ok location ∧
        (FunctionTable.read image location.va location.layout = .error e ∨
        ∃ table, FunctionTable.read image location.va location.layout = .ok table ∧
          (ModuleData.locate image table.header = .error e ∨
          ∃ found, ModuleData.locate image table.header = .ok found ∧ e = .aborted ∧
            ∃ info, (BuildInfo.read image).run {} = .error .aborted info))) ∧
    (BuildInfo.Separate image → ∀ info, (BuildInfo.read image).run {} ≠ .error .aborted info) ∧
    (∀ location table m method, FunctionTable.locate image options.release = .ok location →
      FunctionTable.read image location.va location.layout = .ok table →
      ModuleData.locate image table.header = .ok (m, method) →
      (∀ info, (BuildInfo.read image).run {} ≠ .error .aborted info) →
      ∃ found, buildInfo image = .ok found ∧ extract image options =
        .ok (combine image options table m (stages image options table m found))) ∧
    ∀ (table : FunctionTable) (m : ModuleData) (s : Stages) (e : Error),
      let answer := fun s => (combine image options table m s).1
      let r := reader image options m s.buildInfo.1
      let typelinks := s.typelinks.toOption.getD []
      let concretes := (s.itabs.toOption.getD []).map (·.2)
      let withoutTypelinks := answer { s with typelinks := .error e }
      let withoutItabs := answer { s with itabs := .error e }
      answer { s with functions := .error e } =
        { answer s with userFunctions := [], standardFunctions := [] } ∧
      answer { s with files := .error e } = { answer s with files := [] } ∧
      (withoutTypelinks = { answer s with
          types := withoutTypelinks.types, interfaces := withoutTypelinks.interfaces } ∧
        LosesOnly r.read typelinks concretes (answer s).types withoutTypelinks.types ∧
        NoFullerThan withoutTypelinks.interfaces (answer s).interfaces ∧
        withoutTypelinks.interfaces.map (·.1) = (answer s).interfaces.map (·.1)) ∧
      (withoutItabs = { answer s with types := withoutItabs.types, interfaces := [] } ∧
        LosesOnly r.read concretes typelinks (answer s).types withoutItabs.types) ∧
      ListsAll options r s (answer s).types (answer s).interfaces := by
  refine ⟨fun e => extract_eq_error_iff, fun hseparate info habort => ?_,
    fun location table m method hlocation htable hm hread => ?_, ?_⟩
  · rcases BuildInfo.read_cases habort with ⟨⟨⟩, -⟩ | ⟨⟨⟩⟩ | ⟨⟨⟩, -⟩ | ⟨-, haborts⟩
    exact BuildInfo.not_aborts_of_separate hseparate haborts
  · obtain ⟨found, hfound⟩ := exists_buildInfo hread
    refine ⟨found, hfound, ?_⟩
    rw [← assemble_eq_combine]
    exact extract_of_found hlocation htable hm hfound
  intro table m s e answer r typelinks concretes withoutTypelinks withoutItabs
  refine ⟨combine_without_functions image options table m s e,
    combine_without_files image options table m s e, ⟨rfl, ?_⟩, ⟨?_, ?_⟩,
    listed_listsAll options r s⟩
  · have hlost := listed_losesOnly options r s { s with typelinks := .error e } typelinks
      (List.subset_append_right _ _) (List.Subset.refl _) (List.Subset.refl _)
    refine ⟨hlost.1, hlost.2, ?_⟩
    exact (map_fst_interfaces_listed options r _).trans
      (map_fst_interfaces_listed options r s).symm
  · have hnone := interfaces_listed_of_error options r { s with itabs := .error e } rfl
    exact congrArg (fun interfaces => { withoutItabs with interfaces }) hnone
  · have hroots : roots s.typelinks (.error e) = typelinks := List.append_nil typelinks
    have hlost := listed_losesOnly options r s { s with itabs := .error e } concretes ?_ ?_ ?_
    · rw [← hroots]
      exact hlost.1
    · exact hroots ▸ List.subset_append_left _ _
    · intro va hva
      rw [hroots, List.mem_append]
      exact (List.mem_append.1 hva).symm
    · exact List.nil_subset _

/-- Build information that is found in one section, while its address leads to another one. -/
theorem extract_shadowedRelease :
    Image.ofBytes (decoyImage ".comment" 0x4000).data = .ok (decoyImage ".comment" 0x4000) ∧
    ∃ location table m method,
      FunctionTable.locate (decoyImage ".comment" 0x4000) none = .ok location ∧
        FunctionTable.read (decoyImage ".comment" 0x4000) location.va location.layout = .ok table ∧
        ModuleData.locate (decoyImage ".comment" 0x4000) table.header = .ok (m, method) ∧
        ∀ answer, extract (decoyImage ".comment" 0x4000) {} ≠ .ok answer := by
  have hlocation : FunctionTable.locate (decoyImage ".comment" 0x4000) none =
      .ok ⟨namelessSection.address, .go1_2, .scan⟩ := eq_ok_of_toOption (by decide +kernel)
  have hholds := holdsTwoFunctions_decoyImage ".comment" 0x4000
  have hva : BuildInfo.locate? (decoyImage ".comment" 0x4000) = some 0x4000 := by decide +kernel
  have hheader : (decoyImage ".comment" 0x4000).bytesFrom 0x4000 = .ok decoyBytes :=
    eq_ok_of_toOption (by decide +kernel)
  have hread := BuildInfo.read_of_aborts
    ⟨_, hva, .inr ⟨_, hheader, show decoyBytes.size < 16 by decide +kernel⟩⟩ {}
  have hfound := buildInfo_eq_error_iff.2 ⟨rfl, {}, hread⟩
  have habort : extract (decoyImage ".comment" 0x4000) {} = _ :=
    extract_of_parts hlocation hholds.read hholds.locate
  rw [hfound] at habort
  exact ⟨ofBytes_decoyImage (by decide), _, _, _, _, hlocation, hholds.read, hholds.locate,
    fun answer h => nomatch habort.symm.trans h⟩

end GoImage.Extraction
