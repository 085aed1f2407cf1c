import GoImage.Proofs.BuildInfo.Outcome
import GoImage.Proofs.Bytes.Utf8
import GoImage.Proofs.Bytes.Varint
import GoImage.Proofs.Image.Named

/-! # Build information that is cut off

With its texts in place, the build information of a section that ends inside the module text is cut
off, while the count in front of that text still announces all of it. The release is kept. Of the
module text nothing is, although its first lines may be complete. -/

namespace GoImage.BuildInfo

open Decoder

/-! ## Bytes and lists -/

theorem drop_add_length {l front rest : List UInt8} {pos : Nat} (h : l.drop pos = front ++ rest) :
    l.drop (pos + front.length) = rest := by
  rw [← List.drop_drop, h, List.drop_left]

theorem getElem?_toByteArray (bytes : List UInt8) (i : Nat) :
    bytes.toByteArray[i]? = bytes[i]? := by
  by_cases h : i < bytes.length
  · rw [getElem?_pos bytes.toByteArray i (by simpa using h), List.getElem_toByteArray,
      List.getElem?_eq_getElem h]
  · rw [getElem?_neg bytes.toByteArray i (by simpa using h), List.getElem?_eq_none (by omega)]

/-! ## Bytes behind their count -/

section SizedAt

variable {data : ByteArray} {pos size : Nat} {tail : List UInt8}

/-- All announced bytes are there, or nothing is read. -/
theorem sizedAt_of_drop (hsize : size < wordModulus)
    (h : data.data.toList.drop pos = varintBytes size ++ tail) :
    sizedAt data pos =
      if size ≤ tail.length then
        .ok ((tail.take size).toByteArray, pos + (varintBytes size).length + size)
      else .error .outOfBounds := by
  have hpos := length_varintBytes_pos size
  have hlength : data.size - pos = (varintBytes size).length + tail.length := by
    have := congrArg List.length h
    simpa using this
  have hseek : ¬ data.size < pos := by omega
  have hvarint := run_uvarint_of_drop (c := { data, pos }) hsize h
  by_cases hfits : size ≤ tail.length
  · have hend : pos + (varintBytes size).length + size ≤ data.size := by omega
    have hbytes : data.extract (pos + (varintBytes size).length)
        (pos + (varintBytes size).length + size) = (tail.take size).toByteArray := by
      rw [extract_eq_toByteArray, drop_add_length h]
    simp [-bind_pure_comp, sizedAt, Decoder.on, sized, run_seek, hseek, hvarint, run_take, hend,
      hfits, hbytes]
  · have hend : ¬ pos + (varintBytes size).length + size ≤ data.size := by omega
    simp [-bind_pure_comp, sizedAt, Decoder.on, sized, run_seek, hseek, hvarint, run_take, hend,
      hfits]

end SizedAt

/-! ## Blobs with their texts in place -/

/-- Build information as a linker writes it in place. -/
structure InlineBlob where
  pointerSize : UInt8
  flags : UInt8
  /-- What stands where another form has its pointers. -/
  unused : List UInt8
  release : String
  text : String
  inPlace : flags.toNat.testBit 1 = true
  unused_length : unused.length = 16
  release_size : release.toByteArray.size < wordModulus
  text_size : (framed text.toByteArray).size < wordModulus

namespace InlineBlob

variable (blob : InlineBlob)

/-- The header. -/
def header : List UInt8 :=
  magic ++ blob.pointerSize :: blob.flags :: blob.unused

/-- The module text in its frame. -/
def framedText : List UInt8 :=
  (framed blob.text.toByteArray).data.toList

/-- What stands in front of the module text, with the count of its bytes. -/
def front : List UInt8 :=
  blob.header ++ (varintBytes blob.release.toByteArray.size ++
    (blob.release.toByteArray.data.toList ++ varintBytes blob.framedText.length))

/-- All bytes. -/
def bytes : List UInt8 :=
  blob.front ++ blob.framedText

/-- The bytes of a section that ends behind so many bytes of the module text. -/
def cut (k : Nat) : ByteArray :=
  (blob.bytes.take (blob.front.length + startMarker.length + k)).toByteArray

theorem length_header : blob.header.length = headerSize := by
  simp [header, magic, blob.unused_length, headerSize]

theorem length_framedText :
    blob.framedText.length = startMarker.length + blob.text.utf8ByteSize + endMarker.length := by
  simp [framedText, framed, Nat.add_assoc]

theorem framedText_lt : blob.framedText.length < wordModulus := by
  simpa [framedText] using blob.text_size

theorem toList_cut (k : Nat) :
    (blob.cut k).data.toList =
      blob.header ++ (varintBytes blob.release.toByteArray.size ++
        (blob.release.toByteArray.data.toList ++ (varintBytes blob.framedText.length ++
          blob.framedText.take (startMarker.length + k)))) := by
  rw [cut, bytes, Nat.add_assoc, List.take_length_add_append, List.toList_data_toByteArray]
  simp [front]

theorem headerSize_le_size_cut (k : Nat) : headerSize ≤ (blob.cut k).size := by
  have hlength := congrArg List.length (blob.toList_cut k)
  rw [List.length_append, length_header] at hlength
  have hsize : (blob.cut k).data.toList.length = (blob.cut k).size := by simp
  omega

theorem length_release :
    blob.release.toByteArray.data.toList.length = blob.release.toByteArray.size := by
  simp

theorem drop_cut (k : Nat) :
    (blob.cut k).data.toList.drop headerSize =
      varintBytes blob.release.toByteArray.size ++
        (blob.release.toByteArray.data.toList ++ (varintBytes blob.framedText.length ++
          blob.framedText.take (startMarker.length + k))) := by
  rw [toList_cut, List.drop_left' blob.length_header]

/-! ## Reading a blob -/

/-- The release is read whole. -/
theorem sizedAt_release (k : Nat) :
    sizedAt (blob.cut k) headerSize =
      .ok (blob.release.toByteArray,
        headerSize + (varintBytes blob.release.toByteArray.size).length +
          blob.release.toByteArray.size) := by
  rw [sizedAt_of_drop blob.release_size (blob.drop_cut k), if_pos (by simp),
    List.take_left' blob.length_release, toByteArray_toList]

/-- The module text is not: what is left of it is less than what is announced. -/
theorem sizedAt_modules {k : Nat} (hk : k ≤ blob.text.utf8ByteSize) :
    sizedAt (blob.cut k) (headerSize + (varintBytes blob.release.toByteArray.size).length +
      blob.release.toByteArray.size) = .error .outOfBounds := by
  have hdrop := drop_add_length (drop_add_length (blob.drop_cut k))
  rw [length_release] at hdrop
  have hshort : ¬ blob.framedText.length ≤
      (blob.framedText.take (startMarker.length + k)).length := by
    have hmarker : 0 < endMarker.length := by decide
    rw [List.length_take, blob.length_framedText]
    omega
  rw [sizedAt_of_drop blob.framedText_lt hdrop, if_neg hshort]

theorem readInline_cut {k : Nat} (hk : k ≤ blob.text.utf8ByteSize) (info : BuildInfo) :
    (readInline (blob.cut k)).run info =
      .error (.moduleInfo .outOfBounds) { info with goVersion := blob.release } := by
  have hsize : ¬ (blob.cut k).size < headerSize := Nat.not_lt.2 (blob.headerSize_le_size_cut k)
  simp only [readInline, if_neg hsize, blob.sizedAt_release]
  -- What is left to do, with the release kept.
  change EStateM.run (ofExcept ((sizedAt (blob.cut k) _).mapError Error.moduleInfo) >>= _)
    { info with goVersion := Utf8.lossy blob.release.toByteArray } = _
  rw [blob.sizedAt_modules hk, Utf8.lossy_toByteArray]
  rfl

theorem getElem?_cut (k : Nat) :
    (blob.cut k)[14]? = some blob.pointerSize ∧ (blob.cut k)[15]? = some blob.flags := by
  rw [← toByteArray_toList (blob.cut k), getElem?_toByteArray, getElem?_toByteArray,
    blob.toList_cut]
  exact ⟨rfl, rfl⟩

theorem readHeader_cut (image : Image) {k : Nat} (hk : k ≤ blob.text.utf8ByteSize)
    (info : BuildInfo) :
    (readHeader image (blob.cut k)).run info =
      .error (.moduleInfo .outOfBounds) { info with goVersion := blob.release } := by
  obtain ⟨hsize, hflags⟩ := blob.getElem?_cut k
  simp only [readHeader, hsize, hflags, blob.inPlace, ↓reduceIte]
  rw [EStateM.run_bind, blob.readInline_cut hk]

/-! ## What is left of the module text -/

/-- The leading lines that end, with their line ends, within so many bytes. -/
def completeLines : Nat → List (List Char) → List (List Char)
  | k, line :: rest =>
    let size := (line.map Char.utf8Size).sum
    if size < k then line :: completeLines (k - (size + 1)) rest else []
  | _, [] => []

/-- The lines of the module text that are complete in front of the cut. -/
def survivingLines (k : Nat) : List (List Char) :=
  completeLines k (Text.pieces '\n' blob.text.toList)

/-- The release, and what those lines say. -/
def survivingInfo (k : Nat) : BuildInfo :=
  match (readLines (blob.survivingLines k)).run { info := { goVersion := blob.release } } with
  | .ok _ lines => lines.info
  | .error _ lines => lines.info

end InlineBlob

variable {image : Image} {va k : Nat}

theorem read_of_cut {blob : InlineBlob} (hva : locate? image = some va) (hlt : va < wordModulus)
    (hcut : image.bytesFrom va = .ok (blob.cut k)) (hk : k ≤ blob.text.utf8ByteSize) :
    (read image).run {} = .error (.moduleInfo .outOfBounds) { goVersion := blob.release } := by
  rw [read_of_located hva hlt, hcut]
  exact blob.readHeader_cut image hk {}

/-- A blob that is cut off inside its module text reads with an error that is not fatal, and keeps
the release. It keeps what the complete lines in front of the cut say exactly if they say
nothing. -/
theorem read_cut_outcome {blob : InlineBlob} (hva : locate? image = some va)
    (hlt : va < wordModulus) (hcut : image.bytesFrom va = .ok (blob.cut k))
    (hk : k ≤ blob.text.utf8ByteSize) :
    (∃ e, IsTruncation e ∧ (read image).run {} = .error e { goVersion := blob.release }) ∧
      ((∃ e, IsTruncation e ∧ (read image).run {} = .error e (blob.survivingInfo k)) ↔
        blob.survivingInfo k = { goVersion := blob.release }) := by
  have hread := read_of_cut hva hlt hcut hk
  have htruncation : IsTruncation (.moduleInfo .outOfBounds) := trivial
  refine ⟨⟨_, htruncation, hread⟩, ?_, fun hinfo => ⟨_, htruncation, hinfo ▸ hread⟩⟩
  rintro ⟨e, -, he⟩
  rw [hread] at he
  exact (EStateM.Result.error.inj he).2.symm

/-! ## Sections that end too early -/

/-- The header at the start of the only section is found. -/
theorem locate?_ofSection {width : PointerSize} {order : ByteOrder} {address : Nat}
    {bytes : List UInt8} (haligned : address % 16 = 0) (hsize : headerSize ≤ bytes.length)
    (hmagic : hasBytes ⟨bytes.toArray⟩ 0 magic = true) :
    locate? (.ofSection width order ".go.buildinfo" address bytes) = some address := by
  have hne : bytes ≠ [] := List.ne_nil_of_length_pos (Nat.lt_of_lt_of_le (by decide) hsize)
  have hfound : (Image.ofSection width order ".go.buildinfo" address bytes).scanSection? 16
      headerSize (fun content pos va => if hasBytes content pos magic then some va else none)
      (Image.wholeSection width ".go.buildinfo" address bytes.length) = some address :=
    Image.scanSection?_of_start (Image.content_ofSection hne) haligned hsize (if_pos hmagic)
  have hfirst : sectionNames.filterMap
      (Image.ofSection width order ".go.buildinfo" address bytes).sectionNamed? =
        [Image.wholeSection width ".go.buildinfo" address bytes.length] := by
    simp [sectionNames, Image.sectionNamed?, Image.sections_ofSection, Image.wholeSection]
  rw [locate?, Image.sectionsByPreference, hfirst, List.singleton_append, List.findSome?_cons,
    hfound]

theorem InlineBlob.hasBytes_cut (blob : InlineBlob) (k : Nat) :
    hasBytes (blob.cut k) 0 magic = true := by
  have hstart : blob.header.take magic.length = magic := rfl
  have hlength : magic.length ≤ blob.header.length := by
    rw [length_header]
    decide
  rw [hasBytes, extract_eq_toByteArray, List.toList_data_toByteArray, toList_cut, List.drop_zero,
    List.take_append_of_le_length hlength, hstart]
  exact BEq.rfl

/-- An image of a blob that is cut off. -/
def cutImage (blob : InlineBlob) (k : Nat) : Image :=
  .ofSection .eight .little ".go.buildinfo" 0x600000 (blob.cut k).data.toList

section CutImage

variable (blob : InlineBlob) (k : Nat)

theorem ofBytes_cutImage (hsize : (blob.cut k).size + 0x300 < 256 ^ 4) :
    Image.ofBytes (cutImage blob k).data = .ok (cutImage blob k) := by
  refine Image.ofBytes_ofSection (by decide) (by decide) (by decide) ?_
  have hname : ".go.buildinfo".utf8ByteSize = 13 := by decide
  rw [hname, Array.length_toList, ByteArray.size_data]
  omega

theorem locate?_cutImage : locate? (cutImage blob k) = some 0x600000 :=
  locate?_ofSection (by decide) (blob.headerSize_le_size_cut k) (blob.hasBytes_cut k)

theorem bytesFrom_cutImage : (cutImage blob k).bytesFrom 0x600000 = .ok (blob.cut k) := by
  have hsize : headerSize ≤ (blob.cut k).data.toList.length := blob.headerSize_le_size_cut k
  have hpos : 0 < headerSize := by decide
  exact Image.bytesFrom_ofSection (Nat.le_refl _) (by omega)

end CutImage

/-- What is built from a command of one module. -/
def commandBlob : InlineBlob :=
  { pointerSize := 8
    flags := 2
    unused := List.replicate 16 0
    release := "go1.21.0"
    text := "path\tcmd\nmod\tcmd\tv1.0.0\n"
    inPlace := by decide
    unused_length := rfl
    release_size := by decide +kernel
    text_size := by decide +kernel }

theorem ofBytes_cutImage_commandBlob (k : Nat) :
    Image.ofBytes (cutImage commandBlob k).data = .ok (cutImage commandBlob k) := by
  have hsize : (commandBlob.cut k).size ≤ commandBlob.bytes.length := by
    rw [InlineBlob.cut, List.size_toByteArray, List.length_take]
    exact Nat.min_le_right _ _
  exact ofBytes_cutImage commandBlob k
    (Nat.lt_of_le_of_lt (Nat.add_le_add_right hsize _)
      (show commandBlob.bytes.length + 0x300 < 256 ^ 4 by decide +kernel))

/-- Inside the first line nothing is lost but that line. -/
theorem read_cutImage_first_line :
    Image.ofBytes (cutImage commandBlob 4).data = .ok (cutImage commandBlob 4) ∧
      ∃ e, IsTruncation e ∧
        (read (cutImage commandBlob 4)).run {} = .error e (commandBlob.survivingInfo 4) := by
  have hsize : 4 ≤ commandBlob.text.utf8ByteSize := by decide +kernel
  have hinfo : commandBlob.survivingInfo 4 = { goVersion := commandBlob.release } := by
    decide +kernel
  exact ⟨ofBytes_cutImage_commandBlob 4, (read_cut_outcome (locate?_cutImage commandBlob 4)
    (by decide) (bytesFrom_cutImage commandBlob 4) hsize).2.2 hinfo⟩

/-- Inside the second line the first one is lost too, although it is complete. -/
theorem read_cutImage_second_line :
    Image.ofBytes (cutImage commandBlob 12).data = .ok (cutImage commandBlob 12) ∧
      12 ≤ commandBlob.text.utf8ByteSize ∧
      commandBlob.survivingInfo 12 = { goVersion := "go1.21.0", path := "cmd" } ∧
      (read (cutImage commandBlob 12)).run {} =
        .error (.moduleInfo .outOfBounds) { goVersion := "go1.21.0" } := by
  have hsize : 12 ≤ commandBlob.text.utf8ByteSize := by decide +kernel
  exact ⟨ofBytes_cutImage_commandBlob 12, hsize, by decide +kernel,
    read_of_cut (locate?_cutImage commandBlob 12) (by decide) (bytesFrom_cutImage commandBlob 12)
      hsize⟩

end GoImage.BuildInfo
