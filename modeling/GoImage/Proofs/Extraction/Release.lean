import GoImage.Proofs.Extraction.Functions
import GoImage.Proofs.FunctionTable.Search

/-! # Releases given from outside

A release that is given from outside settles the layout, and in its place a named table needs no
magic number any more: the first name with room for one is followed. What was found without the
release is found again exactly if that name leads to it. -/

namespace GoImage

/-! ## Named tables -/

namespace FunctionTable

/-- The addresses that names give to a table, in the order of looking: sections, then the symbol. -/
def namedAddresses (image : Image) : List Nat :=
  (sectionNames.filterMap image.sectionNamed?).map (·.address) ++ (image.symbol? symbolName).toList

/-- Whether an address has room for the fixed part of a header. -/
def hasRoom (image : Image) (va : Nat) : Bool :=
  (image.bytesFrom va).toOption.any (8 ≤ ·.size)

/-- The first named address with room for a header. -/
def firstNamed? (image : Image) : Option Nat :=
  (namedAddresses image).find? (hasRoom image)

/-- Whether the first name with room for a header, where there is one, leads to an address. -/
def NamesLeadTo (image : Image) (va : Nat) : Prop :=
  ∀ named, firstNamed? image = some named → named = va

section Forced

variable {image : Image} {layout : Layout} {source : Source} {va : Nat} {location : Location}

/-- Where the layout is given, any room for a header is accepted. -/
theorem accept?_forced (image : Image) (layout : Layout) (source : Source) (va : Nat) :
    accept? image (some layout) source va =
      if hasRoom image va then some ⟨va, layout, source⟩ else none := by
  unfold accept? hasRoom
  cases image.bytesFrom va with
  | error e => rfl
  | ok data =>
      cases hlayout : layoutAt? image.order data 0 with
      | none => simp [Except.toOption, hlayout]
      | some magic =>
          have hsize := (layoutAt?_eq_some_iff.1 hlayout).size
          simp [Except.toOption, hlayout, hsize]

/-- Without room there is no header. -/
theorem accept?_of_no_room (h : hasRoom image va = false) (forced : Option Layout) :
    accept? image forced source va = none := by
  cases forced with
  | some layout => rw [accept?_forced, if_neg (by simp [h])]
  | none =>
      by_contra hsome
      obtain ⟨location, hlocation⟩ := Option.ne_none_iff_exists'.1 hsome
      obtain ⟨data, hdata, _, hstart, -⟩ := accept?_eq_some_iff.1 hlocation
      have hsize := hstart.size
      simp [hasRoom, hdata, Except.toOption, hsize] at h

theorem scanSection?_forced (image : Image) (layout : Layout) (s : Section) :
    scanSection? image (some layout) s =
      (scanSection? image none s).map fun location => { location with layout } := by
  unfold scanSection? Image.scanSection?
  cases image.content s with
  | error e => rfl
  | ok content =>
      dsimp only
      rw [List.map_findSome?]
      congr 1
      funext pos
      dsimp only [Function.comp]
      cases mayShowMagic content pos with
      | false => rfl
      | true =>
          cases layoutAt? image.order content pos with
          | none => rfl
          | some magic => cases countsFunctions image.order content pos <;> rfl

theorem findSome?_accept?_forced (image : Image) (layout : Layout) (source : Source)
    (vas : List Nat) :
    vas.findSome? (accept? image (some layout) source) =
      (vas.find? (hasRoom image)).map fun va => ⟨va, layout, source⟩ := by
  induction vas with
  | nil => rfl
  | cons va vas ih =>
      rw [List.findSome?_cons, accept?_forced, List.find?_cons]
      cases hasRoom image va with
      | true => rfl
      | false => exact ih

/-- What names lead to, sections before the symbol. -/
def locateNamed? (image : Image) (forced : Option Layout) : Option Location :=
  (((sectionNames.filterMap image.sectionNamed?).map (·.address)).findSome?
    (accept? image forced .ofSection)).or
      ((image.symbol? symbolName).toList.findSome? (accept? image forced .symbol))

theorem locate?_eq (image : Image) (forced : Option Layout) :
    locate? image forced =
      (locateNamed? image forced).or
        (image.fileBackedSections.findSome? (scanSection? image forced)) := by
  unfold locate? locateNamed?
  rw [List.findSome?_map]
  cases image.symbol? symbolName with
  | none => rfl
  | some va =>
      rw [Option.toList_some, List.findSome?_singleton]
      rfl

/-- A given layout is looked for where the first name with room leads. -/
theorem exists_locate?_forced (h : firstNamed? image = some va) (layout : Layout) :
    ∃ source, locate? image (some layout) = some ⟨va, layout, source⟩ := by
  unfold firstNamed? namedAddresses at h
  rw [List.find?_append] at h
  rw [locate?_eq]
  unfold locateNamed?
  rw [findSome?_accept?_forced, findSome?_accept?_forced]
  rcases Option.or_eq_some_iff.1 h with h | ⟨hnone, h⟩
  · rw [h]
    exact ⟨.ofSection, rfl⟩
  · rw [hnone, h]
    exact ⟨.symbol, rfl⟩

/-- Without a name with room, a given layout is looked for where any other would be. -/
theorem locate?_forced_of_none (h : firstNamed? image = none) (layout : Layout) :
    locate? image (some layout) =
      (locate? image none).map fun location => { location with layout } := by
  have hnone : ∀ forced, locateNamed? image forced = none := by
    intro forced
    have hroom : ∀ va ∈ namedAddresses image, hasRoom image va = false := by
      intro va hva
      have hva := List.find?_eq_none.1 h va hva
      simpa using hva
    unfold namedAddresses at hroom
    rw [List.forall_mem_append] at hroom
    unfold locateNamed?
    rw [Option.or_eq_none_iff]
    exact ⟨List.findSome?_eq_none_iff.2 fun va hva => accept?_of_no_room (hroom.1 va hva) forced,
      List.findSome?_eq_none_iff.2 fun va hva => accept?_of_no_room (hroom.2 va hva) forced⟩
  rw [locate?_eq, locate?_eq, hnone, hnone, Option.none_or, Option.none_or, List.map_findSome?]
  congr 1
  funext s
  exact scanSection?_forced image layout s

/-- What is found without a release is found with one that writes its layout, if no name leads
elsewhere. -/
theorem exists_locate_withRelease {release : String} (h : locate image none = .ok location)
    (hrelease : Layout.ofRelease release = .ok location.layout)
    (hnames : NamesLeadTo image location.va) :
    ∃ source, locate image (some release) = .ok ⟨location.va, location.layout, source⟩ := by
  obtain ⟨hfound, hva⟩ := locate_eq_ok_iff.1 h
  have hcheck := checkAddress_eq_ok_iff.2 hva
  cases hnamed : firstNamed? image with
  | some va =>
      obtain ⟨source, hsource⟩ := exists_locate?_forced hnamed location.layout
      rw [hnames va hnamed] at hsource
      exact ⟨source, by rw [locate_of_release hrelease hsource, hcheck]; rfl⟩
  | none =>
      have hsource := locate?_forced_of_none hnamed location.layout
      rw [hfound] at hsource
      exact ⟨location.source, by rw [locate_of_release hrelease hsource, hcheck]; rfl⟩

/-- No name leads elsewhere than to what is found with a release. -/
theorem namesLeadTo_of_locate {release : String} (hrelease : Layout.ofRelease release = .ok layout)
    (h : locate image (some release) = .ok location) : NamesLeadTo image location.va := by
  intro va hnamed
  obtain ⟨source, hsource⟩ := exists_locate?_forced hnamed layout
  rw [locate_of_release hrelease hsource] at h
  cases hcheck : checkAddress va with
  | ok u =>
      rw [hcheck] at h
      cases h
      rfl
  | error e =>
      rw [hcheck] at h
      cases h

theorem headerWords_fields {size : PointerSize} (quantum : Nat) :
    Yields (fun header : Header => header.va = va ∧ header.layout = layout)
      (headerWords layout va quantum size) := by
  unfold headerWords
  refine .bind fun _ => .bind fun _ => ?_
  cases layout with
  | go1_2 => exact .pure ⟨rfl, rfl⟩
  | go1_16 =>
      exact .bind fun _ => .bind fun _ => .bind fun _ => .bind fun _ => .bind fun _ =>
        .bind fun _ => .pure ⟨rfl, rfl⟩
  | go1_18 | go1_20 =>
      exact .bind fun _ => .bind fun _ => .bind fun _ => .bind fun _ => .bind fun _ =>
        .bind fun _ => .bind fun _ => .pure ⟨rfl, rfl⟩

/-- A table that is read has the address and the layout that it is read with. -/
theorem header_of_read {table : FunctionTable} (h : read image va layout = .ok table) :
    table.header.va = va ∧ table.header.layout = layout := by
  obtain ⟨data, -, h⟩ := exists_of_bind_eq_ok h
  obtain ⟨header, hheader, h⟩ := exists_of_bind_eq_ok h
  cases h
  unfold readHeader at hheader
  split at hheader
  · split at hheader
    · exact (headerWords_fields _).on hheader
    · cases hheader
  · cases hheader

end Forced

end FunctionTable

/-! ## Extraction with a release given from outside -/

namespace Extraction

theorem table_of_assemble (image : Image) (options : Options) (table : FunctionTable)
    (m : ModuleData) (found : BuildInfo × List Warning) :
    (assemble image options table m found).1.table = table.header.summary image.order :=
  rfl

theorem buildInfo_of_assemble (image : Image) (options : Options) (table : FunctionTable)
    (m : ModuleData) (found : BuildInfo × List Warning) :
    (assemble image options table m found).1.buildInfo = found.1 :=
  rfl

/-- The table of an answer is the one that was found. -/
theorem table_of_extract {image : Image} {options : Options} {metadata : Metadata}
    {warnings : List Warning} (h : extract image options = .ok (metadata, warnings))
    {location : FunctionTable.Location}
    (hlocation : FunctionTable.locate image options.release = .ok location) :
    metadata.table.va = location.va ∧ metadata.table.layout = location.layout := by
  obtain ⟨location', table, m, _, found, hlocation', htable, -, -, hassemble⟩ :=
    exists_parts_of_extract h
  obtain rfl : location' = location := Except.ok.inj (hlocation'.symm.trans hlocation)
  have hsummary := table_of_assemble image options table m found
  rw [hassemble] at hsummary
  rw [hsummary]
  exact FunctionTable.header_of_read htable

/-- A release from outside plays no part where the build information states one. -/
theorem assemble_withRelease {image : Image} {options : Options} (table : FunctionTable)
    (m : ModuleData) {found : BuildInfo × List Warning} (release : Option String)
    (h : (minorRelease? found.1.goVersion).isSome = true) :
    assemble image { options with release } table m found =
      assemble image options table m found := by
  have hne : found.1.goVersion ≠ "" := by
    intro hempty
    rw [hempty] at h
    exact absurd h (by decide)
  have hminor : ∀ release, minor? found.1 { options with release } =
      minorRelease? found.1.goVersion := fun release => Option.or_of_isSome h
  have hversion : ∀ release layout, version found.1 { options with release } layout =
      withoutGo found.1.goVersion := fun release layout => if_neg hne
  -- Nothing but the minor release and the version looks at the release from outside.
  have hsame : ∀ release, assemble image { options with release } table m found =
      assemble image { options with release := none } table m found := by
    intro release
    unfold assemble
    dsimp only
    rw [hminor, hversion, hminor, hversion]
    rfl
  exact (hsame release).trans (hsame options.release).symm

/-! ## Runs with and without a release -/

/-- Where the build information states a release, an extraction without a release from outside is
repeated with one that writes the layout of the table, exactly if the first name with room for a
header, where there is one, leads to the table. -/
theorem extract_withRelease_iff {image : Image} {options : Options} {metadata : Metadata}
    {warnings : List Warning} {release : String} (hnone : options.release = none)
    (h : extract image options = .ok (metadata, warnings))
    (hminor : (minorRelease? metadata.buildInfo.goVersion).isSome = true)
    (hrelease : Layout.ofRelease release = .ok metadata.table.layout) :
    ((∃ warnings', extract image { options with release := some release } =
        .ok (metadata, warnings')) ↔ FunctionTable.NamesLeadTo image metadata.table.va) ∧
    (FunctionTable.NamesLeadTo image metadata.table.va →
      extract image { options with release := some release } = .ok (metadata, warnings)) := by
  obtain ⟨location, table, m, method, found, hlocation, htable, hm, hfound, hassemble⟩ :=
    exists_parts_of_extract h
  obtain ⟨hva, hlayout⟩ := table_of_extract h hlocation
  have hinfo := buildInfo_of_assemble image options table m found
  rw [hassemble] at hinfo
  rw [hinfo] at hminor
  rw [hlayout] at hrelease
  rw [hnone] at hlocation
  have hsame : FunctionTable.NamesLeadTo image metadata.table.va →
      extract image { options with release := some release } = .ok (metadata, warnings) := by
    intro hnames
    rw [hva] at hnames
    obtain ⟨source, hforced⟩ :=
      FunctionTable.exists_locate_withRelease hlocation hrelease hnames
    have hextract : extract image { options with release := some release } =
        .ok (assemble image { options with release := some release } table m found) :=
      extract_of_found hforced htable hm hfound
    rw [hextract, assemble_withRelease table m _ hminor, hassemble]
  refine ⟨⟨?_, fun hnames => ⟨warnings, hsame hnames⟩⟩, hsame⟩
  rintro ⟨warnings', h'⟩
  obtain ⟨location', _, _, _, _, hlocation', -⟩ := exists_parts_of_extract h'
  rw [(table_of_extract h' hlocation').1]
  exact FunctionTable.namesLeadTo_of_locate hrelease hlocation'

theorem ofRelease_older : Layout.ofRelease "1.12" = .ok .go1_2 :=
  eq_ok_of_toOption (by decide +kernel)

/-- What the build information of these images says: a release alone. -/
def olderInfo : BuildInfo :=
  { goVersion := "go1.15" }

theorem extract_decoyImage {name : String} (hlocation : FunctionTable.locate
    (decoyImage name 0x3000) none = .ok ⟨namelessSection.address, .go1_2, .scan⟩)
    (hfound : buildInfo (decoyImage name 0x3000) = .ok (olderInfo, [])) :
    ∃ metadata warnings, extract (decoyImage name 0x3000) {} = .ok (metadata, warnings) ∧
      metadata.table.layout = .go1_2 ∧ metadata.buildInfo = olderInfo :=
  have hholds := holdsTwoFunctions_decoyImage name 0x3000
  ⟨_, _, extract_of_found hlocation hholds.read hholds.locate hfound, rfl, rfl⟩

/-- No name leads anywhere, and the release changes nothing. -/
theorem extract_withRelease_comment :
    Image.ofBytes (decoyImage ".comment" 0x3000).data = .ok (decoyImage ".comment" 0x3000) ∧
    ∃ metadata warnings, extract (decoyImage ".comment" 0x3000) {} = .ok (metadata, warnings) ∧
      (minorRelease? metadata.buildInfo.goVersion).isSome = true ∧
      Layout.ofRelease "1.12" = .ok metadata.table.layout ∧
      extract (decoyImage ".comment" 0x3000) { release := some "1.12" } =
        .ok (metadata, warnings) := by
  have hlocation : FunctionTable.locate (decoyImage ".comment" 0x3000) none =
      .ok ⟨namelessSection.address, .go1_2, .scan⟩ := eq_ok_of_toOption (by decide +kernel)
  have hfound : buildInfo (decoyImage ".comment" 0x3000) = .ok (olderInfo, []) :=
    eq_ok_of_toOption (by decide +kernel)
  obtain ⟨metadata, warnings, hextract, hlayout, hinfo⟩ := extract_decoyImage hlocation hfound
  have hminor : (minorRelease? metadata.buildInfo.goVersion).isSome = true := by
    rw [hinfo]
    decide
  have hrelease : Layout.ofRelease "1.12" = .ok metadata.table.layout := by
    rw [hlayout, ofRelease_older]
  have hnone : FunctionTable.firstNamed? (decoyImage ".comment" 0x3000) = none := by decide +kernel
  have hnames : FunctionTable.NamesLeadTo (decoyImage ".comment" 0x3000) metadata.table.va := by
    intro va hva
    rw [hnone] at hva
    cases hva
  exact ⟨ofBytes_decoyImage (by decide), metadata, warnings, hextract, hminor, hrelease,
    (extract_withRelease_iff rfl hextract hminor hrelease).2 hnames⟩

/-- A section that is named like a table and holds none is taken for one where a release is
given. -/
theorem extract_withRelease_gopclntab :
    Image.ofBytes (decoyImage ".gopclntab" 0x3000).data = .ok (decoyImage ".gopclntab" 0x3000) ∧
    ∃ metadata warnings, extract (decoyImage ".gopclntab" 0x3000) {} = .ok (metadata, warnings) ∧
      (minorRelease? metadata.buildInfo.goVersion).isSome = true ∧
      Layout.ofRelease "1.12" = .ok metadata.table.layout ∧
      ∀ answer,
        extract (decoyImage ".gopclntab" 0x3000) { release := some "1.12" } ≠ .ok answer := by
  have hlocation : FunctionTable.locate (decoyImage ".gopclntab" 0x3000) none =
      .ok ⟨namelessSection.address, .go1_2, .scan⟩ := eq_ok_of_toOption (by decide +kernel)
  have hfound : buildInfo (decoyImage ".gopclntab" 0x3000) = .ok (olderInfo, []) :=
    eq_ok_of_toOption (by decide +kernel)
  obtain ⟨metadata, warnings, hextract, hlayout, hinfo⟩ := extract_decoyImage hlocation hfound
  have hminor : (minorRelease? metadata.buildInfo.goVersion).isSome = true := by
    rw [hinfo]
    decide
  have hfails :
      (extract (decoyImage ".gopclntab" 0x3000) { release := some "1.12" }).toOption = none := by
    decide +kernel
  refine ⟨ofBytes_decoyImage (by decide), metadata, warnings, hextract, hminor,
    by rw [hlayout, ofRelease_older], ?_⟩
  intro answer h
  rw [h] at hfails
  cases hfails

end Extraction
end GoImage
