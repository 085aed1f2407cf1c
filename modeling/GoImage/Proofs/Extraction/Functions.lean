import GoImage.Extraction
import GoImage.Proofs.FunctionTable.Walk
import GoImage.Proofs.Image.Named
import GoImage.Proofs.ModuleData.Search
import GoImage.Proofs.Package

/-! # Which functions are a user's own

Every function with a readable name is counted as the user's own or as one of the standard library,
by its name alone. -/

namespace GoImage

/-! ## Records -/

namespace FunctionTable

theorem read_of_header {image : Image} {va : Nat} {layout : Layout}
    {data : ByteArray} {header : Header} (hdata : image.bytesFrom va = .ok data)
    (hheader : readHeader image.order data va layout = .ok header) :
    read image va layout = .ok ⟨header, image.order, data⟩ := by
  unfold read
  rw [hdata]
  change (readHeader image.order data va layout >>= _) = _
  rw [hheader]
  rfl

end FunctionTable

namespace Extraction

/-- The functions that an image has records of, as far as their names can be read. -/
def records (image : Image) (options : Options) : Except Error (List FunctionTable.Function) := do
  let location ← FunctionTable.locate image options.release
  let table ← FunctionTable.read image location.va location.layout
  let (m, _) ← ModuleData.locate image table.header
  return FunctionTable.named table (← table.entries m.text)

section Assemble

variable (image : Image) (options : Options) {table : FunctionTable} {m : ModuleData}
  (found : BuildInfo × List Warning)

theorem functions_of_assemble {functions : List FunctionTable.Function}
    (h : table.functions m.text = .ok functions) :
    (assemble image options table m found).1.userFunctions = userFunctions functions ∧
      (assemble image options table m found).1.standardFunctions =
        if options.standardFunctions then standardFunctions functions else [] := by
  unfold assemble
  rw [h]
  exact ⟨rfl, rfl⟩

theorem warning_of_assemble {e : Error} (h : table.functions m.text = .error e) :
    Warning.functions e ∈ (assemble image options table m found).2 := by
  have hwarned : (orWarn Warning.functions [] (table.functions m.text)).2 = [.functions e] := by
    rw [h]
    rfl
  change _ ∈ _ ++ (orWarn Warning.functions [] (table.functions m.text)).2 ++ _ ++ _
  rw [hwarned]
  simp

end Assemble

/-- An extraction has found a table and a module record, and is put together from them. -/
theorem exists_parts_of_extract {image : Image} {options : Options} {metadata : Metadata}
    {warnings : List Warning} (h : extract image options = .ok (metadata, warnings)) :
    ∃ location table m method found,
      FunctionTable.locate image options.release = .ok location ∧
      FunctionTable.read image location.va location.layout = .ok table ∧
      ModuleData.locate image table.header = .ok (m, method) ∧ buildInfo image = .ok found ∧
      assemble image options table m found = (metadata, warnings) := by
  obtain ⟨location, hlocation, h⟩ := exists_of_bind_eq_ok h
  obtain ⟨table, htable, h⟩ := exists_of_bind_eq_ok h
  obtain ⟨⟨m, method⟩, hm, h⟩ := exists_of_bind_eq_ok h
  obtain ⟨found, hfound, h⟩ := exists_of_bind_eq_ok h
  exact ⟨location, table, m, method, found, hlocation, htable, hm, hfound, Except.ok.inj h⟩

/-- An extraction that has no complaint about the functions has gone through all records. -/
theorem exists_records_of_extract {image : Image} {options : Options} {metadata : Metadata}
    {warnings : List Warning} (h : extract image options = .ok (metadata, warnings))
    (hwalk : ∀ e, Warning.functions e ∉ warnings) :
    ∃ functions, records image options = .ok functions ∧
      metadata.userFunctions = userFunctions functions ∧
      metadata.standardFunctions =
        if options.standardFunctions then standardFunctions functions else [] := by
  obtain ⟨location, table, m, method, found, hlocation, htable, hm, -, hassemble⟩ :=
    exists_parts_of_extract h
  cases hfunctions : table.functions m.text with
  | error e =>
      have hwarned := warning_of_assemble image options found hfunctions
      rw [hassemble] at hwarned
      exact absurd hwarned (hwalk e)
  | ok functions =>
      have hlists := functions_of_assemble image options found hfunctions
      rw [hassemble] at hlists
      obtain ⟨entries, hentries, hnamed⟩ := FunctionTable.exists_entries_of_functions hfunctions
      refine ⟨functions, ?_, hlists⟩
      unfold records
      rw [hlocation]
      change (FunctionTable.read image location.va location.layout >>= _) = _
      rw [htable]
      change (ModuleData.locate image table.header >>= _) = _
      rw [hm]
      change (table.entries m.text >>= _) = _
      rw [hentries, hnamed]
      rfl

section Parts

variable {image : Image} {options : Options} {location : FunctionTable.Location}
variable {table : FunctionTable} {m : ModuleData} {method : ModuleData.Method}

/-- Behind the module record, nothing but the build information can keep back the answer. -/
theorem extract_of_parts (hlocation : FunctionTable.locate image options.release = .ok location)
    (htable : FunctionTable.read image location.va location.layout = .ok table)
    (hm : ModuleData.locate image table.header = .ok (m, method)) :
    extract image options = (buildInfo image).map (assemble image options table m) := by
  unfold extract
  rw [hlocation]
  change (FunctionTable.read image location.va location.layout >>= _) = _
  rw [htable]
  change (ModuleData.locate image table.header >>= _) = _
  rw [hm]
  change (buildInfo image >>= _) = _
  cases buildInfo image <;> rfl

theorem extract_of_found {found : BuildInfo × List Warning}
    (hlocation : FunctionTable.locate image options.release = .ok location)
    (htable : FunctionTable.read image location.va location.layout = .ok table)
    (hm : ModuleData.locate image table.header = .ok (m, method))
    (hfound : buildInfo image = .ok found) :
    extract image options = .ok (assemble image options table m found) := by
  rw [extract_of_parts hlocation htable hm, hfound]
  rfl

end Parts

/-! ## An image with two functions -/

def littleWords (words : List Nat) : List UInt8 :=
  words.flatMap (littleEndianBytes 4)

/-- A function table of two functions. The packages of both are third parties', and the path of one
begins with `go.`. -/
def twoFunctionsTable : ByteArray :=
  ⟨(littleWords [0xFFFFFFFB, 0x04010000, 2, 0x3000, 36, 0x3010, 44, 0x3020, 0,
      0x3000, 52, 0x3010, 71] ++
    "acme.org/gear.Spin".toUTF8.data.toList ++ [0] ++
    "go.uber.org/zap.New".toUTF8.data.toList ++ [0]).toArray⟩

/-- A module record that says no more than where the table is. -/
def twoFunctionsRecord : ByteArray :=
  ⟨(littleWords ([0x1000, 0, 0, 0x100c, 3, 3] ++ List.replicate 20 0 ++ [1] ++
    List.replicate 9 0)).toArray⟩

def tableSection : Section :=
  { name := ".gopclntab", address := 0x1000, size := 91, offset := Elf.fileHeaderSize .four
    fileSize := 91, executable := false, writable := false, initialized := true }

def recordSection : Section :=
  { name := ".data.rel.ro", address := 0x2000, size := 144, offset := Elf.fileHeaderSize .four + 91
    fileSize := 144, executable := false, writable := false, initialized := true }

def twoFunctionsImage : Image :=
  Elf.File.image
    { width := .four
      order := .little
      sections := [tableSection, recordSection]
      symbols := [(ModuleData.symbolName, recordSection.address)]
      content := twoFunctionsTable.data.toList ++ twoFunctionsRecord.data.toList }

theorem ofBytes_twoFunctionsImage :
    Image.ofBytes twoFunctionsImage.data = .ok twoFunctionsImage :=
  Elf.File.Fits.ofBytes_image (by decide +kernel)

def twoFunctionsHeader : FunctionTable.Header :=
  { layout := .go1_2
    va := tableSection.address
    quantum := 1
    pointerSize := .four
    functionCount := 2
    entriesOffset := 12 }

def twoFunctionsModule : ModuleData :=
  { va := recordSection.address
    layout := .go1_2
    functionTable := tableSection.address
    ftab := ⟨0x100c, 3, 3⟩
    filetab := ⟨0, 0, 0⟩
    minpc := 0
    maxpc := 0
    text := 0
    etext := 0
    types := 0
    etypes := 1
    typelinks := ⟨0, 0, 0⟩
    itablinks := ⟨0, 0, 0⟩ }

/-- Whether the two functions and their module record are where their sections say. -/
structure HoldsTwoFunctions (image : Image) : Prop where
  order : image.order = .little
  pointerSize : image.pointerSize = .four
  symbol : image.symbol? ModuleData.symbolName = some recordSection.address
  table : image.bytesFrom tableSection.address = .ok twoFunctionsTable
  record : image.bytesFrom recordSection.address = .ok twoFunctionsRecord

theorem size_twoFunctionsTable_record :
    twoFunctionsTable.size = 91 ∧ twoFunctionsRecord.size = 144 := by
  decide +kernel

theorem holdsTwoFunctions_of_standsAt {image : Image} {name : String}
    (hstands : StandsAt (twoFunctionsTable.data.toList ++ twoFunctionsRecord.data.toList) image.data
      (Elf.fileHeaderSize .four))
    (htable : image.sectionHolding? tableSection.address = some { tableSection with name })
    (hrecord : image.sectionHolding? recordSection.address = some recordSection)
    (horder : image.order = .little) (hpointerSize : image.pointerSize = .four)
    (hsymbol : image.symbol? ModuleData.symbolName = some recordSection.address) :
    HoldsTwoFunctions image := by
  obtain ⟨hsize, hsize'⟩ := size_twoFunctionsTable_record
  have hlength : twoFunctionsTable.data.toList.length = 91 := by simp [hsize]
  have hlength' : twoFunctionsRecord.data.toList.length = 144 := by simp [hsize']
  obtain ⟨htableAt, hrecordAt⟩ := standsAt_append.1 hstands
  rw [hlength] at hrecordAt
  have hcontent : image.content { tableSection with name } = .ok twoFunctionsTable := by
    rw [← toByteArray_toList twoFunctionsTable]
    exact Image.content_of_standsAt rfl hlength.symm htableAt
  have hcontent' : image.content recordSection = .ok twoFunctionsRecord := by
    rw [← toByteArray_toList twoFunctionsRecord]
    exact Image.content_of_standsAt rfl hlength'.symm hrecordAt
  exact ⟨horder, hpointerSize, hsymbol,
    Image.bytesFrom_address (s := { tableSection with name }) htable hcontent,
    Image.bytesFrom_address hrecord hcontent'⟩

namespace HoldsTwoFunctions

variable {image : Image}

theorem read (h : HoldsTwoFunctions image) :
    FunctionTable.read image tableSection.address .go1_2 =
      .ok ⟨twoFunctionsHeader, .little, twoFunctionsTable⟩ := by
  have hheader : FunctionTable.readHeader .little twoFunctionsTable tableSection.address .go1_2 =
      .ok twoFunctionsHeader := eq_ok_of_toOption (by decide +kernel)
  rw [← h.order] at hheader ⊢
  exact FunctionTable.read_of_header h.table hheader

theorem locate (h : HoldsTwoFunctions image) :
    ModuleData.locate image twoFunctionsHeader = .ok (twoFunctionsModule, .symbol) := by
  have hrecord : (ModuleData.record recordSection.address .go1_2).on
      { data := twoFunctionsRecord, order := .little, pointerSize := 4 } =
        .ok twoFunctionsModule := eq_ok_of_toOption (by decide +kernel)
  have hread : ModuleData.read image recordSection.address .go1_2 = .ok twoFunctionsModule := by
    refine ModuleData.read_of_record h.record ?_ ?_
    · rw [size_twoFunctionsTable_record.2, ModuleData.recordSize, h.pointerSize]
      rfl
    · unfold Image.cursor
      rw [h.order, h.pointerSize]
      exact hrecord
  have hvalid : ModuleData.isValid image twoFunctionsHeader twoFunctionsModule = true := by
    unfold ModuleData.isValid ModuleData.failedCheck? ModuleData.checks
    rw [ModuleData.linksWithinTypes_of_empty image rfl, h.pointerSize]
    rfl
  exact ModuleData.locate_of_symbol h.symbol hread hvalid

end HoldsTwoFunctions

theorem holdsTwoFunctions_twoFunctionsImage : HoldsTwoFunctions twoFunctionsImage :=
  holdsTwoFunctions_of_standsAt Elf.File.standsAt_content rfl rfl rfl rfl rfl

theorem locate_twoFunctionsTable :
    FunctionTable.locate twoFunctionsImage none =
      .ok ⟨tableSection.address, .go1_2, .ofSection⟩ :=
  eq_ok_of_toOption (by decide +kernel)

def withStandardFunctions : Options :=
  { standardFunctions := true }

theorem extract_twoFunctionsImage :
    ∃ metadata, extract twoFunctionsImage withStandardFunctions = .ok (metadata, []) ∧
      metadata.userFunctions.map (·.name) = ["acme.org/gear.Spin"] ∧
      metadata.standardFunctions.map (·.name) = ["go.uber.org/zap.New"] := by
  have hfound : buildInfo twoFunctionsImage = .ok ({}, []) := eq_ok_of_toOption (by decide +kernel)
  have hextract : extract twoFunctionsImage withStandardFunctions = .ok
      (assemble twoFunctionsImage withStandardFunctions
        ⟨twoFunctionsHeader, .little, twoFunctionsTable⟩ twoFunctionsModule ({}, [])) :=
    extract_of_found locate_twoFunctionsTable holdsTwoFunctions_twoFunctionsImage.read
      holdsTwoFunctions_twoFunctionsImage.locate hfound
  have hwarnings : (assemble twoFunctionsImage withStandardFunctions
      ⟨twoFunctionsHeader, .little, twoFunctionsTable⟩ twoFunctionsModule ({}, [])).2 = [] := by
    decide +kernel
  rw [← hwarnings]
  exact ⟨_, hextract, by decide +kernel⟩

/-! ## An image with a section too many -/

/-- Bytes that begin no header. -/
def decoyBytes : ByteArray :=
  "stripped out".toUTF8

/-- Build information with a release and no modules. -/
def releaseBytes : ByteArray :=
  ⟨(BuildInfo.magic ++ [4, 2] ++ List.replicate 16 0 ++ [6] ++
    "go1.15".toUTF8.data.toList ++ [0]).toArray⟩

/-- The section of the table, with a name that tells nothing. -/
def namelessSection : Section :=
  { tableSection with name := ".rodata" }

def decoySection (name : String) (address : Nat) : Section :=
  { name, address, size := 12, offset := Elf.fileHeaderSize .four + 235, fileSize := 12
    executable := false, writable := false, initialized := true }

def releaseSection : Section :=
  { name := ".go.buildinfo", address := 0x4000, size := 40, offset := Elf.fileHeaderSize .four + 247
    fileSize := 40, executable := false, writable := true, initialized := true }

/-- The two functions with build information, and with a section that holds nothing of use. -/
def decoyImage (name : String) (address : Nat) : Image :=
  Elf.File.image
    { width := .four
      order := .little
      sections := [namelessSection, recordSection, decoySection name address, releaseSection]
      symbols := [(ModuleData.symbolName, recordSection.address)]
      content := (twoFunctionsTable.data.toList ++ twoFunctionsRecord.data.toList) ++
        (decoyBytes.data.toList ++ releaseBytes.data.toList) }

theorem ofBytes_decoyImage {name : String} {address : Nat}
    (h : (name, address) ∈
      [(".comment", 0x3000), (".gopclntab", 0x3000), (".comment", 0x4000)]) :
    Image.ofBytes (decoyImage name address).data = .ok (decoyImage name address) := by
  simp only [List.mem_cons, Prod.mk.injEq, List.not_mem_nil, or_false] at h
  rcases h with ⟨rfl, rfl⟩ | ⟨rfl, rfl⟩ | ⟨rfl, rfl⟩ <;>
    exact Elf.File.Fits.ofBytes_image (by decide +kernel)

theorem holdsTwoFunctions_decoyImage (name : String) (address : Nat) :
    HoldsTwoFunctions (decoyImage name address) :=
  have hstands : StandsAt ((twoFunctionsTable.data.toList ++ twoFunctionsRecord.data.toList) ++
      (decoyBytes.data.toList ++ releaseBytes.data.toList)) (decoyImage name address).data
      (Elf.fileHeaderSize .four) := Elf.File.standsAt_content
  holdsTwoFunctions_of_standsAt (standsAt_append.1 hstands).1 rfl rfl rfl rfl rfl

/-! ## Functions of a package -/

/-- All functions of one name are kept, or none. -/
theorem filter_packageFunctions (functions : List FunctionTable.Function) (keeps : String → Bool)
    (name : String) :
    ((functions.map PackageFunction.of).filter (keeps ·.package)).filter (·.name = name) =
      if keeps (packageName name) then (functions.filter (·.name = name)).map PackageFunction.of
      else [] := by
  induction functions with
  | nil => simp
  | cons f functions ih =>
      have hpackage : (PackageFunction.of f).package = packageName f.name := rfl
      have hname : (PackageFunction.of f).name = f.name := rfl
      by_cases hf : f.name = name
      · cases hkeeps : keeps (packageName name) with
        | true => simp_all
        | false => simp_all
      · cases hkeeps : keeps (packageName f.name) with
        | true => simp_all
        | false => simp_all

theorem filter_userFunctions (functions : List FunctionTable.Function) (name : String) :
    (userFunctions functions).filter (·.name = name) =
      if isStandard (packageName name) then []
      else (functions.filter (·.name = name)).map PackageFunction.of := by
  have hfilter := filter_packageFunctions functions (!isStandard ·) name
  unfold userFunctions
  rw [hfilter]
  cases isStandard (packageName name) <;> rfl

theorem filter_standardFunctions (functions : List FunctionTable.Function) (name : String) :
    (standardFunctions functions).filter (·.name = name) =
      if isStandard (packageName name) then
        (functions.filter (·.name = name)).map PackageFunction.of
      else [] :=
  filter_packageFunctions functions isStandard name

/-- All functions of a package that is not a standard one are the user's own, unless its path begins
like a name that the compiler makes up. Those of such a package are taken for standard ones. -/
theorem functions_of_importPath {image : Image} {options : Options} {metadata : Metadata}
    {warnings : List Warning} (h : extract image options = .ok (metadata, warnings))
    (hwalk : ∀ e, Warning.functions e ∉ warnings) {path symbol : String}
    (hpath : ImportPath path.toList) (hsymbol : IsSymbol symbol.toList)
    (hstandard : isStandard path = false) :
    ∃ functions, records image options = .ok functions ∧
      let found := (functions.filter (·.name = path ++ "." ++ symbol)).map PackageFunction.of
      let isMistaken := path == "type" || isGenerated path.toList
      metadata.userFunctions.filter (·.name = path ++ "." ++ symbol) =
          (if isMistaken then [] else found) ∧
        metadata.standardFunctions.filter (·.name = path ++ "." ++ symbol) =
          (if isMistaken && options.standardFunctions then found else []) := by
  obtain ⟨functions, hrecords, huser, hstandards⟩ := exists_records_of_extract h hwalk
  refine ⟨functions, hrecords, ?_⟩
  intro found isMistaken
  have hpackage : isStandard (packageName (path ++ "." ++ symbol)) = isMistaken := by
    rw [packageName_qualified hpath hsymbol, isGenerated_concat hstandard]
    change isStandard (if isMistaken = true then _ else _) = isMistaken
    cases isMistaken with
    | true => rfl
    | false => exact hstandard
  rw [huser, hstandards, filter_userFunctions, hpackage]
  refine ⟨rfl, ?_⟩
  cases options.standardFunctions with
  | true =>
      rw [if_pos rfl, filter_standardFunctions, hpackage, Bool.and_true]
  | false =>
      rw [Bool.and_false]
      rfl

theorem userFunctions_gear :
    Image.ofBytes twoFunctionsImage.data = .ok twoFunctionsImage ∧
      ∃ metadata functions,
        extract twoFunctionsImage withStandardFunctions = .ok (metadata, []) ∧
        records twoFunctionsImage withStandardFunctions = .ok functions ∧
        metadata.userFunctions.filter (·.name = "acme.org/gear" ++ "." ++ "Spin") =
          (functions.filter (·.name = "acme.org/gear" ++ "." ++ "Spin")).map PackageFunction.of ∧
        metadata.userFunctions.map (·.name) = ["acme.org/gear.Spin"] := by
  obtain ⟨metadata, hextract, huser, _⟩ := extract_twoFunctionsImage
  have hpath : ImportPath "acme.org/gear".toList :=
    ⟨by decide, by decide, by decide, by decide⟩
  have hsymbol : IsSymbol "Spin".toList := .plain (by decide)
  obtain ⟨functions, hrecords, hfound, _⟩ :=
    functions_of_importPath hextract (fun _ => List.not_mem_nil) hpath hsymbol (by decide)
  exact ⟨ofBytes_twoFunctionsImage, metadata, functions, hextract, hrecords, hfound, huser⟩

/-- A package that is not a standard one, all of whose functions are taken for standard ones. -/
theorem standardFunctions_zap :
    Image.ofBytes twoFunctionsImage.data = .ok twoFunctionsImage ∧
      ImportPath "go.uber.org/zap".toList ∧ IsSymbol "New".toList ∧
      isStandard "go.uber.org/zap" = false ∧
      ∃ metadata, extract twoFunctionsImage withStandardFunctions = .ok (metadata, []) ∧
        "go.uber.org/zap" ++ "." ++ "New" ∉ metadata.userFunctions.map (·.name) ∧
        "go.uber.org/zap" ++ "." ++ "New" ∈ metadata.standardFunctions.map (·.name) := by
  obtain ⟨metadata, hextract, huser, hstandard⟩ := extract_twoFunctionsImage
  refine ⟨ofBytes_twoFunctionsImage, ⟨by decide, by decide, by decide, by decide⟩,
    .plain (by decide), by decide, metadata, hextract, ?_, ?_⟩
  · rw [huser]
    decide
  · rw [hstandard]
    decide

end Extraction

end GoImage
