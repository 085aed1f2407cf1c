import GoImage.Proofs.Image.Named
import GoImage.Proofs.TypeInfo.Name
import GoImage.TypeInfo.Reader

/-! # Names without a mark of their form

Nothing in a name says in which form its lengths are written. The first bytes behind the flags tell
it for every text in groups that is not empty, and for every text behind two bytes that is neither
empty nor longer than one byte can count. What they tell also holds for the tag. -/

namespace GoImage

namespace Name

/-- Whether the form of the lengths can be told from the first bytes of a name. -/
structure TellsForm (isLegacy : Bool) (name : Name) : Prop where
  text_ne : name.text ≠ ""
  text_lt : isLegacy = true → name.text.utf8ByteSize < 0x100

variable {encoding encoding' : NameEncoding} {isLegacy : Bool} {name : Name} {data : ByteArray}

theorem standsAt_sizedText (h : StandsAt (name.bytes isLegacy) data 0) :
    StandsAt (sizedText isLegacy name.text) data 1 :=
  (standsAt_append.1 h.tail).1

/-! ## The guess -/

theorem isLegacy_probe_of_groups (hne : name.text ≠ "")
    (h : StandsAt (name.bytes false) data 0) : NameEncoding.probe.isLegacy data = false := by
  have hpos := Nat.pos_of_ne_zero (mt String.utf8ByteSize_eq_zero_iff.1 hne)
  obtain ⟨b, rest, hbytes, hb⟩ := varintBytes_eq_cons hpos
  have hstands := standsAt_sizedText h
  rw [sizedText, if_neg (by decide), hbytes] at hstands
  simp [NameEncoding.isLegacy, hstands.getElem?_eq, hb]

/-- A length of two bytes is taken for one if its first byte alone is zero. -/
theorem isLegacy_probe_of_word (hlt : name.text.utf8ByteSize < 0x10000)
    (h : StandsAt (name.bytes true) data 0) :
    NameEncoding.probe.isLegacy data =
      decide (name.text ≠ "" ∧ name.text.utf8ByteSize < 0x100) := by
  have hstands := standsAt_sizedText h
  rw [sizedText, if_pos rfl] at hstands
  have hsize : 2 < data.size := by
    have hle := hstands.le_size
    rw [List.length_append, ByteOrder.length_encode] at hle
    omega
  have hhigh : data[1]? = some (UInt8.ofNat (name.text.utf8ByteSize / 256)) :=
    hstands.getElem?_eq
  have hlow : data[2]? = some (UInt8.ofNat name.text.utf8ByteSize) := hstands.tail.getElem?_eq
  rw [NameEncoding.isLegacy, hhigh, hlow, Bool.eq_iff_iff]
  have hzero : name.text = "" ↔ name.text.utf8ByteSize = 0 :=
    String.utf8ByteSize_eq_zero_iff.symm
  simp only [Bool.and_eq_true, decide_eq_true_eq, hsize, true_and, Option.some.injEq, Ne,
    ← UInt8.toNat_inj, UInt8.toNat_ofNat', UInt8.toNat_zero, hzero]
  omega

/-- The guess is right for every name that tells its form. -/
theorem isLegacy_probe (hwritable : name.IsWritable isLegacy) (htells : name.TellsForm isLegacy)
    (h : StandsAt (name.bytes isLegacy) data 0) :
    NameEncoding.probe.isLegacy data = isLegacy := by
  cases isLegacy with
  | false => exact isLegacy_probe_of_groups htells.text_ne h
  | true =>
      rw [isLegacy_probe_of_word hwritable.text_lt h]
      exact decide_eq_true ⟨htells.text_ne, htells.text_lt rfl⟩

/-! ## Reading with a guess -/

/-- Only what an encoding says of the data matters to the decoder. -/
theorem run_decoder_congr {c : Cursor} (h : encoding.isLegacy c.data = encoding'.isLegacy c.data)
    (va : Nat) : (decoder encoding va).run c = (decoder encoding' va).run c := by
  unfold decoder
  rw [EStateM.run_bind, EStateM.run_bind, EStateM.run_get]
  simp only [h]

end Name

namespace TypeReader

theorem name_congr {r : TypeReader} {encoding encoding' : NameEncoding} {va : Nat}
    {data : ByteArray}
    (hdata : r.image.bytesFrom va = .ok data)
    (h : encoding.isLegacy data = encoding'.isLegacy data) :
    ({ r with encoding }).name va = ({ r with encoding := encoding' }).name va := by
  simp only [TypeReader.name, Image.decodeAt, hdata, Decoder.on]
  rw [Name.run_decoder_congr (show encoding.isLegacy (r.image.cursor data).data =
    encoding'.isLegacy (r.image.cursor data).data from h)]

/-- A name is read back in the form it was written in, whatever stands behind it. A reader that has
to guess the form reads the same wherever the name tells it. -/
theorem name_eq_of_standsAt {r : TypeReader} {encoding : NameEncoding} {name : Name} {va : Nat}
    {data : ByteArray} (hencoding : encoding ≠ .probe)
    (hwritable : name.IsWritable (encoding = .legacy))
    (hdata : r.image.bytesFrom va = .ok data)
    (hstands : StandsAt (name.bytes (encoding = .legacy)) data 0) :
    ({ r with encoding }).name va = .ok name ∧
      (name.TellsForm (encoding = .legacy) →
        ({ r with encoding := .probe }).name va = .ok name) := by
  have hname : ({ r with encoding }).name va = .ok name := by
    simp only [TypeReader.name, Image.decodeAt, hdata]
    exact (Name.reads_decoder hencoding hwritable va).on rfl rfl hstands
  have hisLegacy : encoding.isLegacy data = decide (encoding = .legacy) := by
    cases encoding with
    | legacy | varint => rfl
    | probe => exact absurd rfl hencoding
  refine ⟨hname, fun htells => ?_⟩
  have hprobe := Name.isLegacy_probe hwritable htells hstands
  rw [name_congr hdata (hprobe.trans hisLegacy.symm), hname]

/-! ## One name in each form -/

/-- Two names in sixteen bytes and eight: one in groups, with a tag, and one behind two bytes. -/
def guessedBytes : List UInt8 := [
    3, 4, 0x4e, 0x61, 0x6d, 0x65, 8, 0x6a, 0x73, 0x6f, 0x6e, 0x3a, 0x22, 0x6e, 0x22, 0,
    1, 0, 5, 0x56, 0x61, 0x6c, 0x75, 0x65]

def guessingReader : TypeReader :=
  { image := .ofSection .eight .little ".rodata" 0x480000 guessedBytes
    base := 0x480000
    encoding := .probe
    offsetsCarryBit := true }

/-- One reader reads both names, each in its own form. -/
theorem name_guessingReader :
    Image.ofBytes guessingReader.image.data = .ok guessingReader.image ∧
      guessingReader.name 0x480000 = .ok { text := "Name", tag := some "json:\"n\"", flags := 3 } ∧
      guessingReader.name 0x480010 = .ok { text := "Value", flags := 1 } := by
  have hread : ∀ va bytes, bytes ≠ [] → 0x480000 ≤ va →
      StandsAt bytes ⟨guessedBytes.toArray⟩ (va - 0x480000) →
        ∃ data, guessingReader.image.bytesFrom va = .ok data ∧ StandsAt bytes data 0 := by
    intro va bytes hne hva hstands
    exact (Image.written_ofSection hne hva hstands).exists_bytesFrom Image.apart_ofSection hne
  refine ⟨Image.ofBytes_ofSection (by decide) (by decide) (by decide) (by decide +kernel), ?_, ?_⟩
  · obtain ⟨data, hdata, hstands⟩ := hread 0x480000
      (Name.bytes false { text := "Name", tag := some "json:\"n\"", flags := 3 })
      Name.bytes_ne_nil (by decide) (by decide +kernel)
    have hname := @name_eq_of_standsAt guessingReader .varint
      { text := "Name", tag := some "json:\"n\"", flags := 3 } 0x480000 data (by decide)
      ⟨by decide, by decide, by decide, by decide⟩ hdata hstands
    exact hname.2 ⟨by decide, by decide⟩
  · obtain ⟨data, hdata, hstands⟩ := hread 0x480010
      (Name.bytes true { text := "Value", flags := 1 })
      Name.bytes_ne_nil (by decide) (by decide +kernel)
    have hname := @name_eq_of_standsAt guessingReader .legacy
      { text := "Value", flags := 1 } 0x480010 data (by decide)
      ⟨by decide, by decide, by decide, by decide⟩ hdata hstands
    exact hname.2 ⟨by decide, by decide⟩

end TypeReader

end GoImage
