import GoImage.BuildInfo.Blob
import GoImage.FunctionTable.Files
import GoImage.FunctionTable.Functions
import GoImage.FunctionTable.Search
import GoImage.Image.Load
import GoImage.ModuleData.Search
import GoImage.Package
import GoImage.TypeInfo.Enumeration

/-!
Everything that an executable tells about its build. Without a function table and a module record
there is no answer; any later fault costs a part of the answer and leaves a warning.
-/

namespace GoImage

structure Options where
  standardFunctions : Bool := false
  files : Bool := false
  types : Bool := false
  /-- One type to write out in place of all; zero stands for none. -/
  manualType : Option Nat := none
  /-- A release that settles the layout in place of the magic number. -/
  release : Option String := none
deriving Repr, DecidableEq

structure PackageFunction extends FunctionTable.Function where
  package : String
deriving Repr, DecidableEq

structure TableSummary where
  va : Nat
  layout : Layout
  order : ByteOrder
  quantum : Nat
  pointerSize : PointerSize
deriving Repr, DecidableEq

structure ModuleSummary where
  va : Nat
  text : Nat
  types : Nat
  etypes : Nat
  typelinks : Slice
  itablinks : Slice
deriving Repr, DecidableEq

structure Metadata where
  version : String
  arch : String
  os : String
  buildInfo : BuildInfo
  types : List (Nat × String)
  interfaces : List (Nat × String)
  files : List String
  userFunctions : List PackageFunction
  standardFunctions : List PackageFunction
  table : TableSummary
  module : ModuleSummary
deriving Repr, DecidableEq

def PackageFunction.of (f : FunctionTable.Function) : PackageFunction :=
  { f with package := packageName f.name }

def FunctionTable.Header.summary (header : Header) (order : ByteOrder) : TableSummary :=
  { va := header.va
    layout := header.layout
    order
    quantum := header.quantum
    pointerSize := header.pointerSize }

def ModuleData.summary (m : ModuleData) : ModuleSummary :=
  { va := m.va
    text := m.text
    types := m.types
    etypes := m.etypes
    typelinks := m.typelinks
    itablinks := m.itablinks }

namespace Extraction

/-- The build information, or what could be read of it. An image need not have any. Only an aborted
run leaves nothing. -/
def buildInfo (image : Image) : Except Error (BuildInfo × List Warning) :=
  match (BuildInfo.read image).run {} with
  | .ok _ info => .ok (info, [])
  | .error .aborted _ => .error .aborted
  | .error .buildInfoAbsent info => .ok (info, [])
  | .error e info => .ok (info, [.buildInfo e])

/-- The minor release: as recorded, or else as given from outside. -/
def minor? (info : BuildInfo) (options : Options) : Option Nat :=
  (minorRelease? info.goVersion).or (options.release.bind minorRelease?)

def withoutGo (version : String) : String :=
  match version.toList with
  | 'g' :: 'o' :: rest => String.ofList rest
  | _ => version

/-- The release as recorded, as given from outside, or as the layout dates it. -/
def version (info : BuildInfo) (options : Options) (layout : Layout) : String :=
  if info.goVersion = "" then options.release.getD layout.name else withoutGo info.goVersion

def userFunctions (functions : List FunctionTable.Function) : List PackageFunction :=
  (functions.map PackageFunction.of).filter (!isStandard ·.package)

def standardFunctions (functions : List FunctionTable.Function) : List PackageFunction :=
  (functions.map PackageFunction.of).filter (isStandard ·.package)

def types (image : Image) (m : ModuleData) (minor : Option Nat) (options : Options) :
    TypeListing :=
  let reader := TypeReader.ofModule image m minor
  match options.manualType.filter (· ≠ 0) with
  | some va => { types := ((Catalogue.manual reader.read va).run {}).1 }
  | none => if options.types then ((reader.enumerate m).run {}).1 else {}

/-- The answer, once the function table, the module record and the build information are known. -/
def assemble (image : Image) (options : Options) (table : FunctionTable) (m : ModuleData)
    (found : BuildInfo × List Warning) : Metadata × List Warning :=
  let (info, infoWarnings) := found
  let (functions, functionWarnings) := orWarn .functions [] (table.functions m.text)
  let (files, fileWarnings) :=
    if options.files then orWarn .files [] table.files else ([], [])
  let listing := types image m (minor? info options) options
  ({ version := version info options table.header.layout
     arch := (info.setting? "GOARCH").getD image.arch
     os := (info.setting? "GOOS").getD image.os
     buildInfo := info
     types := listing.types
     interfaces := listing.interfaces
     files
     userFunctions := userFunctions functions
     standardFunctions :=
       if options.standardFunctions then standardFunctions functions else []
     table := table.header.summary image.order
     module := m.summary },
   infoWarnings ++ functionWarnings ++ fileWarnings ++ listing.warnings)

end Extraction

/-- All that an image tells, with warnings in the order in which parts were lost. -/
def extract (image : Image) (options : Options) : Except Error (Metadata × List Warning) := do
  let location ← FunctionTable.locate image options.release
  let table ← FunctionTable.read image location.va location.layout
  let (m, _) ← ModuleData.locate image table.header
  let found ← Extraction.buildInfo image
  return Extraction.assemble image options table m found

end GoImage
