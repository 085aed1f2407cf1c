import GoImage.Proofs.Extraction.Stages

/-! # What the options change

The release settles what is found in an image, and with it most of the answer. Every other option
is for lists of its own: those of the standard library's functions, of the files, or of the types.
An answer to other options of the same release differs in these lists only. -/

namespace GoImage.Extraction

open TypeReader

/-! ## Functions, parted by their packages -/

/-- A list that two others are merged to, each in its own order. -/
inductive Merged {α : Type} : List α → List α → List α → Prop
  | nil : Merged [] [] []
  | left {left right all : List α} (a : α) :
      Merged left right all → Merged (a :: left) right (a :: all)
  | right {left right all : List α} (a : α) :
      Merged left right all → Merged left (a :: right) (a :: all)

/-- No function is on both lists or on none. -/
theorem merged_functions (functions : List FunctionTable.Function) :
    Merged (userFunctions functions) (standardFunctions functions)
      (functions.map PackageFunction.of) := by
  induction functions with
  | nil => exact .nil
  | cons f rest ih =>
      cases hstandard : isStandard (PackageFunction.of f).package with
      | true =>
          simpa [userFunctions, standardFunctions, hstandard] using
            Merged.right (PackageFunction.of f) ih
      | false =>
          simpa [userFunctions, standardFunctions, hstandard] using
            Merged.left (PackageFunction.of f) ih

/-- The functions of the table of an image, each with its package. Where the table cannot be gone
through there are none. -/
def decodedFunctions (image : Image) (release : Option String) : List PackageFunction :=
  let functions : Except Error (List FunctionTable.Function) := do
    let location ← FunctionTable.locate image release
    let table ← FunctionTable.read image location.va location.layout
    let (m, _) ← ModuleData.locate image table.header
    table.functions m.text
  (functions.toOption.getD []).map PackageFunction.of

/-! ## Types -/

/-- Which types an answer lists. -/
inductive TypeRequest
  | one (va : Nat)
  | all
  | none
deriving Repr, DecidableEq

/-- A type that is asked for by its address comes before the question for all types. -/
def typeRequest (options : Options) : TypeRequest :=
  match options.manualType.filter (· ≠ 0) with
  | some va => .one va
  | none => if options.types then .all else .none

/-- The types of an image that are asked for. -/
def requested (r : TypeReader) (m : ModuleData) : TypeRequest → TypeListing
  | .one va => { types := ((Catalogue.manual r.read va).run {}).1 }
  | .all => ((r.enumerate m).run {}).1
  | .none => {}

theorem types_eq_requested (image : Image) (m : ModuleData) (minor : Option Nat)
    (options : Options) :
    types image m minor options =
      requested (TypeReader.ofModule image m minor) m (typeRequest options) := by
  rw [types, typeRequest]
  cases options.manualType.filter (· ≠ 0) with
  | some va => rfl
  | none => cases options.types <;> rfl

theorem typeRequest_of_manual {options : Options} {va : Nat} (hva : va ≠ 0)
    (h : options.manualType = some va) : typeRequest options = .one va := by
  have hfilter : options.manualType.filter (· ≠ 0) = some va :=
    Option.filter_eq_some_iff.2 ⟨h, decide_eq_true hva⟩
  rw [typeRequest, hfilter]

theorem typeRequest_of_none {options : Options} (hmanual : ∀ va ≠ 0, options.manualType ≠ some va)
    (htypes : options.types = false) : typeRequest options = .none := by
  have hfilter : options.manualType.filter (· ≠ 0) = none := by
    rw [Option.filter_eq_none_iff]
    intro va hva hne
    exact hmanual va (of_decide_eq_true hne) hva
  rw [typeRequest, hfilter, htypes]
  rfl

/-! ## Two answers of one image -/

/-- What two answers have in common, by what their options have in common. -/
structure Independent (o o' : Options) (a a' : Metadata × List Warning) : Prop where
  version : a.1.version = a'.1.version
  arch : a.1.arch = a'.1.arch
  os : a.1.os = a'.1.os
  buildInfo : a.1.buildInfo = a'.1.buildInfo
  table : a.1.table = a'.1.table
  module : a.1.module = a'.1.module
  userFunctions : a.1.userFunctions = a'.1.userFunctions
  standardFunctions : o.standardFunctions = o'.standardFunctions →
    a.1.standardFunctions = a'.1.standardFunctions
  files : o.files = o'.files → a.1.files = a'.1.files
  types : typeRequest o = typeRequest o' →
    a.1.types = a'.1.types ∧ a.1.interfaces = a'.1.interfaces
  warnings : o.files = o'.files → typeRequest o = typeRequest o' → a.2 = a'.2

/-- What an answer holds on behalf of its options, where the table has the functions `all`. -/
structure Shows (options : Options) (all : List PackageFunction) (a : Metadata) : Prop where
  user : a.userFunctions = all.filter (!isStandard ·.package)
  withoutStandard : options.standardFunctions = false → a.standardFunctions = []
  withStandard : options.standardFunctions = true →
    a.standardFunctions = all.filter (isStandard ·.package) ∧
      Merged a.userFunctions a.standardFunctions all
  withoutFiles : options.files = false → a.files = []
  oneType : ∀ va ≠ 0, options.manualType = some va →
    ∃ text, a.types = [(va, text)] ∧ a.interfaces = []
  withoutTypes : (∀ va ≠ 0, options.manualType ≠ some va) → options.types = false →
    a.types = [] ∧ a.interfaces = []

section Assemble

variable (image : Image) {o o' : Options} (table : FunctionTable) (m : ModuleData)
  (found : BuildInfo × List Warning)

theorem independent_assemble (hrelease : o.release = o'.release) :
    Independent o o' (assemble image o table m found) (assemble image o' table m found) := by
  have hminor : ∀ info, minor? info o = minor? info o' := by
    intro info
    rw [minor?, minor?, hrelease]
  have hversion : ∀ info layout, version info o layout = version info o' layout := by
    intro info layout
    rw [version, version, hrelease]
  have htypes : typeRequest o = typeRequest o' → ∀ info,
      Extraction.types image m (minor? info o) o =
        Extraction.types image m (minor? info o') o' := by
    intro hrequest info
    rw [types_eq_requested, types_eq_requested, hminor, hrequest]
  unfold assemble
  refine ⟨hversion _ _, rfl, rfl, rfl, rfl, rfl, rfl, fun hstandard => ?_, fun hfiles => ?_,
    fun hrequest => ?_, fun hfiles hrequest => ?_⟩
  · dsimp only
    rw [hstandard]
  · dsimp only
    rw [hfiles]
  · dsimp only
    rw [htypes hrequest]
    exact ⟨rfl, rfl⟩
  · dsimp only
    rw [hfiles, htypes hrequest]

theorem shows_assemble (options : Options) :
    Shows options (((table.functions m.text).toOption.getD []).map PackageFunction.of)
      (assemble image options table m found).1 := by
  have hfunctions : (orWarn Warning.functions [] (table.functions m.text)).1 =
      (table.functions m.text).toOption.getD [] := by
    cases table.functions m.text <;> rfl
  unfold assemble
  dsimp only
  rw [hfunctions, types_eq_requested]
  refine ⟨rfl, fun h => ?_, fun h => ?_, fun h => ?_, fun va hva h => ?_, fun hmanual h => ?_⟩
  · rw [h]
    rfl
  · rw [if_pos h]
    exact ⟨rfl, merged_functions _⟩
  · rw [h]
    rfl
  · rw [typeRequest_of_manual hva h]
    exact ⟨_, rfl, rfl⟩
  · rw [typeRequest_of_none hmanual h]
    exact ⟨rfl, rfl⟩

end Assemble

theorem decodedFunctions_of_parts {image : Image} {release : Option String}
    {location : FunctionTable.Location} {table : FunctionTable} {m : ModuleData}
    {method : ModuleData.Method} (hlocation : FunctionTable.locate image release = .ok location)
    (htable : FunctionTable.read image location.va location.layout = .ok table)
    (hm : ModuleData.locate image table.header = .ok (m, method)) :
    decodedFunctions image release =
      ((table.functions m.text).toOption.getD []).map PackageFunction.of := by
  simp only [decodedFunctions, hlocation, htable, hm, bind, Except.bind]

/-! ## Options of one release -/

/-- With one release, whatever else the options are, extraction fails with one error or gives two
answers. These have everything in common but the lists that one of the options is for. The functions
of the table are on the user's list or, where it is asked for, on that of the standard library, in
the order of the table. A single type that is asked for is the only entry, whether or not all types
are asked for too. -/
theorem options_independent {image : Image} {o o' : Options} (hrelease : o.release = o'.release) :
    (∀ e, extract image o = .error e ↔ extract image o' = .error e) ∧
    ∀ a, extract image o = .ok a → ∃ a', extract image o' = .ok a' ∧
      Independent o o' a a' ∧
      Shows o (decodedFunctions image o.release) a.1 ∧
      Shows o' (decodedFunctions image o.release) a'.1 := by
  refine ⟨fun e => ?_, fun ⟨metadata, warnings⟩ h => ?_⟩
  · rw [extract_eq_error_iff, extract_eq_error_iff, hrelease]
  obtain ⟨location, table, m, method, found, hlocation, htable, hm, hfound, hassemble⟩ :=
    exists_parts_of_extract h
  rw [decodedFunctions_of_parts hlocation htable hm, ← hassemble]
  refine ⟨assemble image o' table m found, ?_, independent_assemble image table m found hrelease,
    shows_assemble image table m found o, shows_assemble image table m found o'⟩
  exact extract_of_found (hrelease ▸ hlocation) htable hm hfound

/-- The second function passes for one of the standard library, and is listed where these are asked
for. -/
theorem options_independent_twoFunctions :
    Image.ofBytes twoFunctionsImage.data = .ok twoFunctionsImage ∧
      withStandardFunctions.release = ({} : Options).release ∧
      ∃ a a', extract twoFunctionsImage withStandardFunctions = .ok a ∧
        extract twoFunctionsImage {} = .ok a' ∧ Independent withStandardFunctions {} a a' ∧
        a.1.standardFunctions.map (·.name) = ["go.uber.org/zap.New"] ∧
        a'.1.standardFunctions = [] := by
  obtain ⟨metadata, hextract, -, hstandard⟩ := extract_twoFunctionsImage
  obtain ⟨-, hanswers⟩ := @options_independent twoFunctionsImage withStandardFunctions {} rfl
  obtain ⟨a', hextract', hindependent, -, hshows⟩ := hanswers _ hextract
  exact ⟨ofBytes_twoFunctionsImage, rfl, _, a', hextract, hextract', hindependent, hstandard,
    hshows.withoutStandard rfl⟩

end GoImage.Extraction
