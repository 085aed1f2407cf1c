import GoImage.Proofs.BuildInfo.Frame
import GoImage.Proofs.BuildInfo.Lines
import GoImage.Proofs.Image.Named

/-! # Both forms of build information

The release and the module text of a build stand in place behind the header, or behind its two
pointers, in an order and with a width of their own. Either way reading gives the release and what
the text says by itself, so all forms of the same two texts read alike. -/

namespace GoImage.BuildInfo

open Decoder

variable {data : ByteArray} {pos : Nat} {release text : String} {lines : Lines}

/-! ## The frame of the module text -/

theorem getElem?_header {size flags : UInt8} {rest : List UInt8}
    (h : StandsAt (magic ++ size :: flags :: rest) data 0) :
    data[14]? = some size ∧ data[15]? = some flags := by
  obtain ⟨-, hsize⟩ := standsAt_append.1 h
  exact ⟨hsize.getElem?_eq, hsize.tail.getElem?_eq⟩

/-! ## Texts in place -/

/-- Bytes behind their count are read whole. -/
theorem sizedAt_of_standsAt {bytes : List UInt8} (hsize : bytes.length < wordModulus)
    (h : StandsAt (varintBytes bytes.length ++ bytes) data pos) :
    sizedAt data pos =
      .ok (bytes.toByteArray, pos + (varintBytes bytes.length).length + bytes.length) := by
  obtain ⟨rest, hrest⟩ := h.drop_eq
  rw [List.append_assoc] at hrest
  rw [sizedAt_of_drop hsize hrest, if_pos (by simp), List.take_left]

theorem InlineBlob.bytes_eq (blob : InlineBlob) :
    blob.bytes = blob.header ++
      ((varintBytes (textBytes blob.release).length ++ textBytes blob.release) ++
        (varintBytes blob.framedText.length ++ blob.framedText)) := by
  have hrelease : (textBytes blob.release).length = blob.release.toByteArray.size :=
    blob.length_release
  rw [bytes, front, hrelease]
  simp only [textBytes, List.append_assoc]

theorem InlineBlob.headerSize_le (blob : InlineBlob) : headerSize ≤ blob.bytes.length := by
  rw [bytes_eq, List.length_append, blob.length_header]
  exact Nat.le_add_right _ _

theorem InlineBlob.readInline_of_standsAt (blob : InlineBlob) (h : StandsAt blob.bytes data 0)
    (info : BuildInfo) :
    (readInline data).run info =
      .ok (framed blob.text.toByteArray) { info with goVersion := blob.release } := by
  have hfits : ¬ data.size < headerSize := by
    have hle := h.le_size
    have hheader := blob.headerSize_le
    omega
  rw [bytes_eq] at h
  obtain ⟨-, h⟩ := standsAt_append.1 h
  obtain ⟨hrelease, htext⟩ := standsAt_append.1 h
  rw [blob.length_header, Nat.zero_add] at hrelease htext
  have hsize : (textBytes blob.release).length < wordModulus :=
    blob.length_release ▸ blob.release_size
  have hrelease := sizedAt_of_standsAt hsize hrelease
  have htext := sizedAt_of_standsAt blob.framedText_lt htext
  rw [List.length_append, ← Nat.add_assoc] at htext
  simp only [readInline, if_neg hfits, hrelease, toByteArray_textBytes]
  -- What is left to do, with the release kept.
  change EStateM.run (ofExcept ((sizedAt data _).mapError Error.moduleInfo) >>= _)
    { info with goVersion := Utf8.lossy blob.release.toByteArray } = _
  rw [htext, Utf8.lossy_toByteArray, framedText, toByteArray_toList]
  rfl

theorem InlineBlob.readHeader_of_standsAt (blob : InlineBlob) (image : Image)
    (h : StandsAt blob.bytes data 0) (info : BuildInfo) :
    (readHeader image data).run info =
      (readModules (framed blob.text.toByteArray)).run { info with goVersion := blob.release } := by
  obtain ⟨hsize, hflags⟩ : data[14]? = some blob.pointerSize ∧ data[15]? = some blob.flags := by
    rw [bytes, front, header, List.append_assoc, List.append_assoc] at h
    exact getElem?_header h
  simp only [readHeader, hsize, hflags, blob.inPlace, ↓reduceIte]
  rw [EStateM.run_bind, blob.readInline_of_standsAt h]

/-! ## Texts behind pointers -/

/-- Whether bytes are written behind a header of their address and length, in a byte order and with
a width of pointers that need not be the image's. No bytes need no place. -/
structure HasText (image : Image) (order : ByteOrder) (size : PointerSize) (va address : Nat)
    (bytes : List UInt8) : Prop where
  header : image.Written (order.encode size.bytes address ++ order.encode size.bytes bytes.length)
    va
  address_lt : address < 256 ^ size.bytes
  length_le : bytes.length ≤ maxTextSize
  written : bytes = [] ∨ image.Written bytes address

/-- Build information as a linker writes it with pointers. -/
structure IndirectBlob where
  pointerSize : PointerSize
  flags : UInt8
  /-- The address of the header of the release. -/
  release : Nat
  /-- The address of the header of the module text. -/
  modules : Nat
  padding : List UInt8
  behindPointers : flags.toNat.testBit 1 = false
  release_lt : release < 256 ^ pointerSize.bytes
  modules_lt : modules < 256 ^ pointerSize.bytes
  padding_length : 16 + 2 * pointerSize.bytes + padding.length = headerSize

namespace IndirectBlob

def order (blob : IndirectBlob) : ByteOrder :=
  if blob.flags.toNat.testBit 0 then .big else .little

def bytes (blob : IndirectBlob) : List UInt8 :=
  magic ++ UInt8.ofNat blob.pointerSize.bytes :: blob.flags ::
    (blob.order.encode blob.pointerSize.bytes blob.release ++
      (blob.order.encode blob.pointerSize.bytes blob.modules ++ blob.padding))

theorem headerSize_le (blob : IndirectBlob) : headerSize ≤ blob.bytes.length := by
  have hpadding := blob.padding_length
  have hmagic : magic.length = 14 := rfl
  simp only [bytes, List.length_append, List.length_cons, ByteOrder.length_encode, hmagic]
  omega

end IndirectBlob

variable {image : Image} {order : ByteOrder} {size : PointerSize} {va address : Nat}
  {bytes : List UInt8}

theorem reads_pointerPair {first second : Nat} (hfirst : first < 256 ^ size.bytes)
    (hsecond : second < 256 ^ size.bytes) :
    Reads order size.bytes pointerPair
      (order.encode size.bytes first ++ order.encode size.bytes second) (first, second) :=
  (Reads.pointer hfirst).bind ((Reads.pointer hsecond).bind_nil (.pure _))

theorem textHeader_ne_nil (order : ByteOrder) (size : PointerSize) (address length : Nat) :
    order.encode size.bytes address ++ order.encode size.bytes length ≠ [] := by
  refine List.ne_nil_of_length_pos ?_
  have hpos := size.bytes_pos
  rw [List.length_append, ByteOrder.length_encode, ByteOrder.length_encode]
  omega

theorem HasText.indirect_eq (h : HasText image order size va address bytes)
    (hapart : image.Apart) : indirect image order size va = .ok bytes.toByteArray := by
  have hlength_le := h.length_le
  have hlength : bytes.length < 256 ^ size.bytes := by
    have hmax : maxTextSize < 256 ^ 4 := by decide
    have hpow : 256 ^ 4 ≤ 256 ^ size.bytes := by cases size <;> decide
    omega
  obtain ⟨header, hheader, hstands⟩ :=
    h.header.exists_bytesFrom hapart (textHeader_ne_nil order size address bytes.length)
  have hpair : pointerPair.on { data := header, order, pointerSize := size.bytes } =
      .ok (address, bytes.length) :=
    (reads_pointerPair h.address_lt hlength).on rfl rfl hstands
  simp only [indirect, hheader, hpair, bind, Except.bind]
  rw [if_neg (by omega)]
  rcases h.written with rfl | hwritten
  · rfl
  · cases bytes with
    | nil => rfl
    | cons b bytes => exact hwritten.bytesAt_eq hapart (List.cons_ne_nil b bytes)

theorem IndirectBlob.readIndirect_of_standsAt (blob : IndirectBlob) {releaseAt textAt : Nat}
    (hapart : image.Apart) (h : StandsAt blob.bytes data 0)
    (hrelease : HasText image blob.order blob.pointerSize blob.release releaseAt
      (textBytes release))
    (htext : HasText image blob.order blob.pointerSize blob.modules textAt bytes)
    (info : BuildInfo) :
    (readIndirect image data blob.order blob.pointerSize.bytes).run info =
      .ok bytes.toByteArray { info with goVersion := release } := by
  have hpointers : StandsAt (blob.order.encode blob.pointerSize.bytes blob.release ++
      blob.order.encode blob.pointerSize.bytes blob.modules) data 16 := by
    rw [IndirectBlob.bytes] at h
    obtain ⟨-, h⟩ := standsAt_append.1 h
    have hrest := h.tail.tail
    rw [← List.append_assoc] at hrest
    exact (standsAt_append.1 hrest).1
  have hpair : (do seek 16; pointerPair : Decoder (Nat × Nat)).on
      { data, order := blob.order, pointerSize := blob.pointerSize.bytes } =
        .ok (blob.release, blob.modules) :=
    (reads_pointerPair blob.release_lt blob.modules_lt).seek_on rfl rfl hpointers
  simp only [readIndirect, PointerSize.ofBytes?_bytes, hpair]
  -- What is left to do, with both addresses known, and then with the release kept.
  change EStateM.run
    (ofExcept ((indirect image _ _ blob.release).mapError Error.versionString) >>= _) info = _
  rw [hrelease.indirect_eq hapart, toByteArray_textBytes]
  change EStateM.run (ofExcept ((indirect image _ _ blob.modules).mapError Error.moduleInfo))
    { info with goVersion := Utf8.lossy release.toByteArray } = _
  rw [htext.indirect_eq hapart, Utf8.lossy_toByteArray]
  rfl

theorem IndirectBlob.readHeader_of_standsAt (blob : IndirectBlob) {releaseAt textAt : Nat}
    (hapart : image.Apart) (h : StandsAt blob.bytes data 0)
    (hrelease : HasText image blob.order blob.pointerSize blob.release releaseAt
      (textBytes release))
    (htext : HasText image blob.order blob.pointerSize blob.modules textAt bytes)
    (info : BuildInfo) :
    (readHeader image data).run info =
      (readModules bytes.toByteArray).run { info with goVersion := release } := by
  obtain ⟨hsize, hflags⟩ := getElem?_header h
  have hbyte : (UInt8.ofNat blob.pointerSize.bytes).toNat = blob.pointerSize.bytes := by
    cases blob.pointerSize <;> rfl
  have hread := blob.readIndirect_of_standsAt hapart h hrelease htext info
  rw [IndirectBlob.order] at hread
  simp only [readHeader, hsize, hflags, blob.behindPointers, hbyte, Bool.false_eq_true,
    ↓reduceIte]
  rw [EStateM.run_bind, hread]

/-! ## Where a blob is found -/

/-- Whether the magic number stands in the content of a section, at an aligned address. -/
def ShowsMagic (image : Image) (s : Section) (pos : Nat) : Prop :=
  (s.address + pos) % 16 = 0 ∧ ∃ content, image.content s = .ok content ∧ StandsAt magic content pos

/-- Whether a position of a section of its own is the first one for the magic number: earlier ones
of the section do not have it, nor do sections of another such name that are looked through
before. -/
structure IsFirstPlace (image : Image) (s : Section) (content : ByteArray) (pos : Nat) : Prop where
  dedicated : ∃ before after, sectionNames.filterMap image.sectionNamed? = before ++ s :: after ∧
    ∀ t ∈ before, ∀ pos, ¬ ShowsMagic image t pos
  content : image.content s = .ok content
  aligned : (s.address + pos) % 16 = 0
  first : ∀ pos' < pos, ¬ ShowsMagic image s pos'
  /-- The position is not behind the last address. -/
  address_lt : s.address + pos < wordModulus

variable {s : Section} {content : ByteArray}

theorem not_hasBytes_of_not_showsMagic (hcontent : image.content s = .ok content)
    (haligned : (s.address + pos) % 16 = 0) (h : ¬ ShowsMagic image s pos) :
    ¬ hasBytes content pos magic = true :=
  fun hmagic => h ⟨haligned, content, hcontent, (hasBytes_iff (by decide)).1 hmagic⟩

theorem IsFirstPlace.locate?_eq (h : IsFirstPlace image s content pos)
    (hmagic : StandsAt magic content pos) (hsize : pos + headerSize ≤ content.size) :
    locate? image = some (s.address + pos) := by
  obtain ⟨before, after, hsections, hbefore⟩ := h.dedicated
  have hfound : image.scanSection? 16 headerSize (fun content pos va =>
      if hasBytes content pos magic then some va else none) s = some (s.address + pos) := by
    refine Image.scanSection?_of_first h.content h.aligned hsize ?_ fun pos' hpos' haligned => ?_
    · exact if_pos ((hasBytes_iff (by decide)).2 hmagic)
    · exact if_neg (not_hasBytes_of_not_showsMagic h.content haligned (h.first pos' hpos'))
  have hnone : ∀ t ∈ before, image.scanSection? 16 headerSize (fun content pos va =>
      if hasBytes content pos magic then some va else none) t = none := by
    intro t ht
    refine Option.eq_none_iff_forall_not_mem.2 fun va hva => ?_
    obtain ⟨content', pos', hcontent', haligned', -, hva⟩ := Image.exists_of_scanSection? hva
    rw [if_neg (not_hasBytes_of_not_showsMagic hcontent' haligned' (hbefore t ht pos'))] at hva
    cases hva
  rw [locate?, Image.sectionsByPreference, hsections, List.append_assoc, List.findSome?_append,
    List.findSome?_eq_none_iff.2 hnone, Option.none_or, List.cons_append, List.findSome?_cons,
    hfound]

/-- Whether an image has a release and a module text, in either form. -/
inductive Encodes (image : Image) (release text : String) : Prop
  | inline {s : Section} {content : ByteArray} {pos : Nat} (blob : InlineBlob)
      (hplace : IsFirstPlace image s content pos) (hstands : StandsAt blob.bytes content pos)
      (hrelease : blob.release = release) (htext : blob.text = text)
  | indirect {s : Section} {content : ByteArray} {pos releaseAt textAt : Nat} (blob : IndirectBlob)
      (hplace : IsFirstPlace image s content pos) (hstands : StandsAt blob.bytes content pos)
      (hrelease : HasText image blob.order blob.pointerSize blob.release releaseAt
        (textBytes release))
      (htext : HasText image blob.order blob.pointerSize blob.modules textAt
        (framed text.toByteArray).data.toList)

end GoImage.BuildInfo
