import GoImage.Proofs.Image.Named
import GoImage.Proofs.TypeInfo.Name
import GoImage.TypeInfo.Reader

/-! # Type descriptors that are written and read

A descriptor that is written with all it leads to (its name, and the table of its methods or fields
with their names) is read back as it is, for either width of pointers, either byte order, either
form of names and either place of the mark of embedded fields. -/

namespace GoImage

/-! ## Kinds and directions -/

namespace Kind

/-- The number that stands for a kind. -/
def number : Kind → Nat
  | bool => 1
  | int => 2
  | int8 => 3
  | int16 => 4
  | int32 => 5
  | int64 => 6
  | uint => 7
  | uint8 => 8
  | uint16 => 9
  | uint32 => 10
  | uint64 => 11
  | uintptr => 12
  | float32 => 13
  | float64 => 14
  | complex64 => 15
  | complex128 => 16
  | array => 17
  | chan => 18
  | func => 19
  | interface => 20
  | map => 21
  | pointer => 22
  | slice => 23
  | string => 24
  | struct => 25
  | unsafePointer => 26
  | unknown raw => raw

/-- Whether the number of a kind is one of five bits that stands for no other kind. -/
def IsNumbered : Kind → Prop
  | unknown raw => raw = 0 ∨ 27 ≤ raw ∧ raw < 32
  | _ => True

/-- Whether more than the shared part of a descriptor is needed for types of a kind. -/
def hasParts : Kind → Bool
  | array | chan | func | interface | map | pointer | slice | struct => true
  | _ => false

variable {kind : Kind}

theorem number_lt (h : kind.IsNumbered) : kind.number < 32 := by
  cases kind with
  | unknown raw =>
      rcases h with rfl | ⟨-, hlt⟩
      · exact Nat.zero_lt_succ 31
      · exact hlt
  | _ => simp [number]

/-- The bits above the number do not matter. -/
theorem ofByte_number_add (h : kind.IsNumbered) (upper : Nat) :
    ofByte (kind.number + 32 * upper) = kind := by
  have hmod : (kind.number + 32 * upper) % 32 = kind.number := by
    rw [Nat.add_mul_mod_self_left, Nat.mod_eq_of_lt (number_lt h)]
  rw [ofByte, hmod]
  cases kind with
  | unknown raw =>
      have hraw : raw = 0 ∨ raw = 27 ∨ raw = 28 ∨ raw = 29 ∨ raw = 30 ∨ raw = 31 := by
        rcases h with rfl | ⟨hlow, hhigh⟩ <;> omega
      rcases hraw with rfl | rfl | rfl | rfl | rfl | rfl <;> rfl
  | _ => rfl

end Kind

namespace ChanDir

def number : ChanDir → Nat
  | recv => 1
  | send => 2
  | both => 3

theorem ofWord?_number (dir : ChanDir) : ofWord? dir.number = some dir := by
  cases dir <;> rfl

end ChanDir

namespace TypeReader

open Decoder

/-! ## Numbers -/

/-- Numbers as wide as a pointer, one behind the other. -/
def words (r : TypeReader) (ns : List Nat) : List UInt8 :=
  ns.flatMap (r.image.order.encode r.image.pointerSize.bytes)

def IsWord (r : TypeReader) (n : Nat) : Prop :=
  n < 256 ^ r.image.pointerSize.bytes

/-- A count of two bytes. -/
def countBytes (r : TypeReader) (n : Nat) : List UInt8 :=
  r.image.order.encode 2 n

/-- An offset of four bytes. -/
def offsetBytes (r : TypeReader) (offset : Int) : List UInt8 :=
  r.image.order.encode 4 (signedWord offset)

/-- Whether an offset leads to an address. -/
structure LeadsTo (r : TypeReader) (offset : Int) (va : Nat) : Prop where
  low : -0x80000000 ≤ offset
  high : offset < 0x80000000
  address : r.base + offset = va
  va_lt : va < wordModulus

variable {r : TypeReader} {n va : Nat} {offset : Int}

theorem reads_pointer (h : r.IsWord n) :
    Reads r.image.order r.image.pointerSize.bytes pointer (r.words [n]) n := by
  rw [words, List.flatMap_singleton]
  exact .pointer h

theorem reads_offset (hlow : -0x80000000 ≤ offset) (hhigh : offset < 0x80000000) :
    Reads r.image.order r.image.pointerSize.bytes (int .i32) (r.offsetBytes offset) offset :=
  .int32 hlow hhigh

theorem length_words (ns : List Nat) :
    (r.words ns).length = ns.length * r.image.pointerSize.bytes :=
  length_flatMap_of_forall (fun _ => ByteOrder.length_encode _ _ _) ns

theorem LeadsTo.resolve?_eq (h : r.LeadsTo offset va) : r.resolve? offset = some va := by
  have hva := h.va_lt
  have haddress := h.address
  unfold resolve?
  simp only [haddress]
  rw [if_pos (by omega), Int.toNat_natCast]

/-! ## Names -/

/-- Whether a name is written at an address, in the form that the reader expects. -/
structure HasName (r : TypeReader) (va : Nat) (name : Name) : Prop where
  writable : name.IsWritable (r.encoding = .legacy)
  written : r.image.Written (name.bytes (r.encoding = .legacy)) va

/-- What a descriptor with given flags stores for its name: possibly one more star in front. -/
def storedName (flags : Nat) (name : String) : String :=
  if Descriptor.hasExtraStar flags then "*" ++ name else name

/-- Whether an offset leads to the name of a type. Offset zero is for types without one. -/
inductive HasTypeName (r : TypeReader) (flags : Nat) : Int → String → Prop
  | absent : HasTypeName r flags 0 ""
  | stored {offset : Int} {va : Nat} {stored : Name} {name : String} (hne : offset ≠ 0)
      (hoffset : r.LeadsTo offset va) (hname : r.HasName va stored)
      (htext : stored.text = storedName flags name) : HasTypeName r flags offset name

theorem name_eq {name : Name} (hencoding : r.encoding ≠ .probe) (hapart : r.image.Apart)
    (h : r.HasName va name) : r.name va = .ok name :=
  h.written.decodeAt_eq hapart Name.bytes_ne_nil
    ((Name.reads_decoder hencoding h.writable va).readsAt 0)

theorem withoutExtraStar_storedName (flags : Nat) (name : String) :
    withoutExtraStar flags (storedName flags name) = name := by
  unfold withoutExtraStar storedName
  cases Descriptor.hasExtraStar flags <;> simp

theorem HasTypeName.offset_bounds {flags : Nat} {name : String}
    (h : r.HasTypeName flags offset name) : -0x80000000 ≤ offset ∧ offset < 0x80000000 := by
  cases h with
  | absent => decide
  | stored _ hoffset => exact ⟨hoffset.low, hoffset.high⟩

theorem HasTypeName.nameText_eq {flags : Nat} {name : String} (hencoding : r.encoding ≠ .probe)
    (hapart : r.image.Apart) (h : r.HasTypeName flags offset name) :
    ∃ text, r.nameText offset = .ok text ∧ withoutExtraStar flags text = name := by
  cases h with
  | absent =>
      refine ⟨"", rfl, ?_⟩
      unfold withoutExtraStar
      cases Descriptor.hasExtraStar flags <;> rfl
  | stored hne hoffset hname htext =>
      refine ⟨_, ?_, withoutExtraStar_storedName flags name⟩
      simp only [nameText, if_neg hne, hoffset.resolve?_eq, name_eq hencoding hapart hname,
        Except.map, htext]

/-! ## Tables -/

/-- Whether a table of entries is written where its header says, with a capacity that is not below
its length. An empty table may lie anywhere. -/
structure HasTable {ι : Type} (r : TypeReader) (bytes : ι → List UInt8) (entries : List ι)
    (data capacity : Nat) : Prop where
  data_lt : r.IsWord data
  capacity_lt : r.IsWord capacity
  length_le : entries.length ≤ capacity
  written : entries = [] ∨ r.image.Written (entries.flatMap bytes) data

variable {ι α : Type} {bytes : ι → List UInt8} {entries : List ι} {data capacity elementSize : Nat}

theorem HasTable.reads_tableHeader (h : r.HasTable bytes entries data capacity)
    (hbytes : ∀ e, (bytes e).length = elementSize) :
    Reads r.image.order r.image.pointerSize.bytes (r.tableHeader elementSize)
      (r.words [data, entries.length, capacity]) (data, entries.length) := by
  have hlength_le := h.length_le
  have hfits : entries.length * elementSize ≤ r.image.data.size := by
    rw [← length_flatMap_of_forall hbytes entries]
    rcases h.written with rfl | hwritten
    · exact Nat.zero_le _
    · exact hwritten.length_le
  have hlength : r.IsWord entries.length := Nat.lt_of_le_of_lt hlength_le h.capacity_lt
  refine (Reads.pointer h.data_lt).bind ((Reads.pointer hlength).bind
    ((Reads.pointer h.capacity_lt).bind ?_))
  rw [if_neg (by omega)]
  exact .pure _

theorem HasTable.reads_table {element : Decoder α} {value : ι → α} (hapart : r.image.Apart)
    (h : r.HasTable bytes entries data capacity) (hpos : 0 < elementSize)
    (hbytes : ∀ e, (bytes e).length = elementSize)
    (helement : ∀ e ∈ entries,
      Reads r.image.order r.image.pointerSize.bytes element (bytes e) (value e)) :
    Reads r.image.order r.image.pointerSize.bytes (r.table element data entries.length) []
      (entries.map value) := by
  unfold table
  split
  next hempty =>
    rw [List.length_eq_zero_iff.1 hempty]
    exact .pure []
  next hne =>
    rcases h.written with rfl | hwritten
    · exact absurd rfl hne
    refine .ofExcept (hwritten.decodeAt_eq hapart ?_ ((Reads.times helement).readsAt 0))
    have hlength := length_flatMap_of_forall hbytes entries
    have := Nat.mul_pos (Nat.pos_of_ne_zero hne) hpos
    exact List.ne_nil_of_length_pos (by omega)

/-! ## Methods -/

/-- A method of an interface with what is written for it. -/
structure MethodEntry where
  name : Name
  nameOffset : Int
  type : Option Nat
  typeOffset : Int

def MethodEntry.method (e : MethodEntry) : Method :=
  { name := e.name.text, type := e.type }

def methodBytes (r : TypeReader) (e : MethodEntry) : List UInt8 :=
  r.offsetBytes e.nameOffset ++ r.offsetBytes e.typeOffset

/-- Whether an offset leads to the type of a method. Two offsets are for methods without one. -/
inductive HasMethodType (r : TypeReader) : Int → Option Nat → Prop
  | absent : HasMethodType r 0 none
  | unreachable : HasMethodType r (-1) none
  | present {offset : Int} {va : Nat} (hzero : offset ≠ 0) (hminus : offset ≠ -1)
      (hoffset : r.LeadsTo offset va) : HasMethodType r offset (some va)

structure HasMethod (r : TypeReader) (e : MethodEntry) : Prop where
  name : ∃ va, r.LeadsTo e.nameOffset va ∧ r.HasName va e.name
  type : r.HasMethodType e.typeOffset e.type

theorem HasMethodType.offset_bounds {type : Option Nat} (h : r.HasMethodType offset type) :
    -0x80000000 ≤ offset ∧ offset < 0x80000000 := by
  cases h with
  | absent | unreachable => decide
  | present _ _ hoffset => exact ⟨hoffset.low, hoffset.high⟩

theorem HasMethodType.resolve?_eq {type : Option Nat} (h : r.HasMethodType offset type) :
    (if offset = 0 ∨ offset = -1 then none else r.resolve? offset) = type := by
  cases h with
  | absent | unreachable => rfl
  | present hzero hminus hoffset => rw [if_neg (by simp [hzero, hminus]), hoffset.resolve?_eq]

theorem length_methodBytes (e : MethodEntry) : (r.methodBytes e).length = 8 := by
  simp [methodBytes, offsetBytes]

theorem reads_method {e : MethodEntry} (hencoding : r.encoding ≠ .probe) (hapart : r.image.Apart)
    (h : r.HasMethod e) :
    Reads r.image.order r.image.pointerSize.bytes r.method (r.methodBytes e) e.method := by
  obtain ⟨⟨va, hname, hwritten⟩, htype⟩ := h
  have hbounds := htype.offset_bounds
  refine (reads_offset hname.low hname.high).bind
    ((reads_offset hbounds.1 hbounds.2).bind_nil ?_)
  rw [hname.resolve?_eq]
  dsimp only
  rw [htype.resolve?_eq]
  exact Reads.nil_bind (.ofExcept (name_eq hencoding hapart hwritten)) (.pure _)

/-! ## Fields -/

/-- A field of a struct with what is written for it. -/
structure FieldEntry where
  name : Name
  nameVa : Nat
  type : Nat
  offset : Nat
  embedded : Bool

def FieldEntry.field (e : FieldEntry) : Field :=
  { name := e.name.text, type := e.type, offset := e.offset, embedded := e.embedded
    tag := e.name.tag }

/-- The offset of a field, with the mark of an embedded field below it where it has its place
there. -/
def fieldOffset (r : TypeReader) (e : FieldEntry) : Nat :=
  if r.offsetsCarryBit then 2 * e.offset + e.embedded.toNat else e.offset

def fieldBytes (r : TypeReader) (e : FieldEntry) : List UInt8 :=
  r.words [e.nameVa, e.type, r.fieldOffset e]

/-- Whether a field is written: its numbers fit, its name is written, if it has one, and the mark of
an embedded field is where the reader looks for it. -/
structure HasField (r : TypeReader) (e : FieldEntry) : Prop where
  nameVa_lt : r.IsWord e.nameVa
  type_lt : r.IsWord e.type
  offset_lt : r.IsWord (r.fieldOffset e)
  name : e.nameVa = 0 ∧ e.name = {} ∨ e.nameVa ≠ 0 ∧ r.HasName e.nameVa e.name
  embedded_of_name : e.name.isEmbedded = true → e.embedded = true
  name_of_embedded : r.offsetsCarryBit = false → e.embedded = true → e.name.isEmbedded = true

theorem length_fieldBytes (e : FieldEntry) :
    (r.fieldBytes e).length = 3 * r.image.pointerSize.bytes :=
  length_words _

theorem reads_field {e : FieldEntry} (hencoding : r.encoding ≠ .probe) (hapart : r.image.Apart)
    (h : r.HasField e) :
    Reads r.image.order r.image.pointerSize.bytes r.field (r.fieldBytes e) e.field := by
  have hoffset : (if r.offsetsCarryBit then r.fieldOffset e / 2 else r.fieldOffset e) =
      e.offset := by
    unfold fieldOffset
    cases r.offsetsCarryBit <;> cases e.embedded <;> simp
    omega
  have hembedded : (r.offsetsCarryBit && (r.fieldOffset e).testBit 0 || e.name.isEmbedded) =
      e.embedded := by
    have hof := h.embedded_of_name
    have hto := h.name_of_embedded
    unfold fieldOffset
    revert hof hto
    cases r.offsetsCarryBit <;> cases e.embedded <;> cases e.name.isEmbedded <;>
      simp [Nat.testBit_zero]
  have hfield : Reads r.image.order r.image.pointerSize.bytes
      (pure { e.field with
        embedded := r.offsetsCarryBit && (r.fieldOffset e).testBit 0 || e.name.isEmbedded }) []
      e.field := by
    rw [hembedded]
    exact .pure e.field
  refine (Reads.pointer h.nameVa_lt).bind ((Reads.pointer h.type_lt).bind
    ((Reads.pointer h.offset_lt).bind ?_))
  simp only [hoffset]
  rcases h.name with ⟨hzero, hname⟩ | ⟨hnonzero, hname⟩
  · rw [if_pos hzero, ← hname]
    exact Reads.nil_bind (.pure e.name) hfield
  · rw [if_neg hnonzero]
    exact Reads.nil_bind (.ofExcept (name_eq hencoding hapart hname)) hfield

/-! ## Shapes -/

/-- Whether bytes are what stands behind the shared part of a descriptor with given flags, for a
kind and a shape. Between the counts and the types of a function are the rest of a word and, if the
flags announce it, a block on methods and package. -/
inductive IsTail (r : TypeReader) (flags : Nat) : Kind → Shape → List UInt8 → Prop
  | basic {kind : Kind} (hkind : kind.hasParts = false) : IsTail r flags kind .basic []
  | array {elem slice length : Nat} (helem : r.IsWord elem) (hlength : r.IsWord length) :
      IsTail r flags .array (.array elem length) (r.words [elem, slice, length])
  | chan {elem : Nat} {dir : ChanDir} (helem : r.IsWord elem) :
      IsTail r flags .chan (.chan elem dir) (r.words [elem, dir.number])
  | func {params results : List Nat} {variadic : Bool} {padding uncommon : List UInt8}
      (hparams : ∀ type ∈ params, r.IsWord type) (hresults : ∀ type ∈ results, r.IsWord type)
      (hparams_lt : params.length < 0x10000) (hresults_lt : results.length < 0x8000)
      (hpadding : padding.length + 4 = r.image.pointerSize.bytes)
      (huncommon : uncommon.length = if Descriptor.hasUncommon flags then 16 else 0) :
      IsTail r flags .func (.func params results variadic)
        (r.countBytes params.length ++
          (r.countBytes (results.length + if variadic then 0x8000 else 0) ++
            ((padding ++ uncommon) ++ (r.words params ++ r.words results))))
  | interface {package data capacity : Nat} {entries : List MethodEntry}
      (htable : r.HasTable r.methodBytes entries data capacity)
      (hentries : ∀ e ∈ entries, r.HasMethod e) :
      IsTail r flags .interface (.interface (entries.map (·.method)))
        (r.words [package] ++ r.words [data, entries.length, capacity])
  | map {key elem : Nat} (hkey : r.IsWord key) (helem : r.IsWord elem) :
      IsTail r flags .map (.map key elem) (r.words [key, elem])
  | pointer {elem : Nat} (helem : r.IsWord elem) :
      IsTail r flags .pointer (.pointer elem) (r.words [elem])
  | slice {elem : Nat} (helem : r.IsWord elem) :
      IsTail r flags .slice (.slice elem) (r.words [elem])
  | struct {package data capacity : Nat} {entries : List FieldEntry}
      (htable : r.HasTable r.fieldBytes entries data capacity)
      (hentries : ∀ e ∈ entries, r.HasField e) :
      IsTail r flags .struct (.struct (entries.map (·.field)))
        (r.words [package] ++ r.words [data, entries.length, capacity])

theorem isWord_number (dir : ChanDir) : r.IsWord dir.number := by
  have hle : 256 ^ 1 ≤ 256 ^ r.image.pointerSize.bytes :=
    Nat.pow_le_pow_right (by decide) r.image.pointerSize.bytes_pos
  cases dir <;> exact Nat.lt_of_lt_of_le (by decide) hle

theorem reads_words {ns : List Nat} (h : ∀ n ∈ ns, r.IsWord n) :
    Reads r.image.order r.image.pointerSize.bytes (times pointer ns.length) (r.words ns) ns := by
  have hpointer : ∀ n ∈ ns, Reads r.image.order r.image.pointerSize.bytes pointer
      (r.image.order.encode r.image.pointerSize.bytes n) n := fun n hn => .pointer (h n hn)
  have hreads := Reads.times hpointer
  rwa [List.map_id'] at hreads

theorem readsAt_funcShape {flags : Nat} {params results : List Nat} {variadic : Bool}
    {between : List UInt8} (hparams : ∀ type ∈ params, r.IsWord type)
    (hresults : ∀ type ∈ results, r.IsWord type) (hparams_lt : params.length < 0x10000)
    (hresults_lt : results.length < 0x8000)
    (hbetween : r.headerSize + 4 + between.length = r.paramsOffset flags) :
    ReadsAt r.image.order r.image.pointerSize.bytes r.headerSize (r.funcShape flags)
      (r.countBytes params.length ++
        (r.countBytes (results.length + if variadic then 0x8000 else 0) ++
          (between ++ (r.words params ++ r.words results))))
      (.func params results variadic) := by
  have hword : results.length + (if variadic then 0x8000 else 0) < 256 ^ 2 := by
    cases variadic <;> simp <;> omega
  have hcount : (results.length + if variadic then 0x8000 else 0) % 0x8000 = results.length := by
    cases variadic <;> simp <;> omega
  have hbit : (results.length + if variadic then 0x8000 else 0).testBit 15 = variadic := by
    rw [Nat.testBit_eq_decide_div_mod_eq]
    cases variadic <;> simp <;> omega
  refine ((Reads.word hparams_lt).readsAt _).bind (((Reads.word hword).readsAt _).bind ?_)
  refine ReadsAt.bind (.seek ?_) ?_
  · simpa [countBytes] using hbetween
  rw [hcount, hbit]
  refine Reads.readsAt ?_ _
  exact (reads_words hparams).bind ((reads_words hresults).bind_nil (.pure _))

theorem readsAt_shape {flags : Nat} {kind : Kind} {shape : Shape} {tail : List UInt8}
    (hencoding : r.encoding ≠ .probe) (hapart : r.image.Apart)
    (h : r.IsTail flags kind shape tail) :
    ReadsAt r.image.order r.image.pointerSize.bytes r.headerSize (r.shape kind flags) tail
      shape := by
  cases h with
  | basic hkind =>
      cases kind with
      | array | chan | func | interface | map | pointer | slice | struct => cases hkind
      | _ => exact (Reads.pure Shape.basic).readsAt _
  | array helem hlength =>
      have hskip : ∀ n, Reads r.image.order r.image.pointerSize.bytes (skipPointers 1)
          (r.image.order.encode r.image.pointerSize.bytes n) () :=
        fun n => .skipPointers (by simp)
      refine Reads.readsAt ?_ _
      exact (Reads.pointer helem).bind ((hskip _).bind ((Reads.pointer hlength).bind (.pure _)))
  | @chan elem dir helem =>
      refine Reads.readsAt ?_ _
      refine (Reads.pointer helem).bind ((Reads.pointer (isWord_number dir)).bind ?_)
      rw [ChanDir.ofWord?_number]
      exact .pure _
  | func hparams hresults hparams_lt hresults_lt hpadding huncommon =>
      refine readsAt_funcShape hparams hresults hparams_lt hresults_lt ?_
      rw [List.length_append, huncommon, paramsOffset]
      omega
  | interface htable hentries =>
      refine Reads.readsAt ((Reads.skipPointers (by simp [length_words])).bind
        ((htable.reads_tableHeader length_methodBytes).bind_nil ?_)) _
      refine Reads.bind_nil ?_ (.pure _)
      exact htable.reads_table hapart (by decide) length_methodBytes
        fun e he => reads_method hencoding hapart (hentries e he)
  | map hkey helem =>
      refine Reads.readsAt ?_ _
      exact (Reads.pointer hkey).bind ((Reads.pointer helem).bind (.pure _))
  | pointer helem | slice helem =>
      refine Reads.readsAt ?_ _
      exact (Reads.pointer helem).bind (.pure _)
  | struct htable hentries =>
      have hpos := r.image.pointerSize.bytes_pos
      refine Reads.readsAt ((Reads.skipPointers (by simp [length_words])).bind
        ((htable.reads_tableHeader length_fieldBytes).bind_nil ?_)) _
      refine Reads.bind_nil ?_ (.pure _)
      exact htable.reads_table hapart (by omega) length_fieldBytes
        fun e he => reads_field hencoding hapart (hentries e he)

/-! ## Descriptors -/

/-- What a descriptor holds besides what is read from it. -/
structure Unread where
  ptrdata : Nat
  align : UInt8
  fieldAlign : UInt8
  /-- The three bits above the kind. -/
  kindFlags : Nat
  equal : Nat
  gcdata : Nat
  ptrToThis : Int

def descriptorBytes (r : TypeReader) (d : Descriptor) (unread : Unread) (nameOffset : Int)
    (tail : List UInt8) : List UInt8 :=
  r.words [d.size] ++ (r.words [unread.ptrdata] ++ (r.image.order.encode 4 d.hash ++
    ([UInt8.ofNat d.flags] ++ ([unread.align, unread.fieldAlign] ++
      ([UInt8.ofNat (d.kind.number + 32 * unread.kindFlags)] ++
        (r.words [unread.equal, unread.gcdata] ++ (r.offsetBytes nameOffset ++
          (r.offsetBytes unread.ptrToThis ++ tail))))))))

/-- Whether a descriptor is written at its address, with all it leads to. -/
structure IsWritten (r : TypeReader) (d : Descriptor) (unread : Unread) (nameOffset : Int)
    (tail : List UInt8) : Prop where
  size_lt : r.IsWord d.size
  hash_lt : d.hash < 0x100000000
  flags_lt : d.flags < 256
  kind : d.kind.IsNumbered
  kindFlags_lt : unread.kindFlags < 8
  name : r.HasTypeName d.flags nameOffset d.name
  shape : r.IsTail d.flags d.kind d.shape tail
  written : r.image.Written (r.descriptorBytes d unread nameOffset tail) d.va

variable {d : Descriptor} {unread : Unread} {nameOffset : Int} {tail : List UInt8}

theorem readsAt_descriptor (hencoding : r.encoding ≠ .probe) (hapart : r.image.Apart)
    (h : r.IsWritten d unread nameOffset tail) :
    ReadsAt r.image.order r.image.pointerSize.bytes 0 (r.descriptor d.va)
      (r.descriptorBytes d unread nameOffset tail) d := by
  obtain ⟨text, htext, hname⟩ := h.name.nameText_eq hencoding hapart
  obtain ⟨hlow, hhigh⟩ := h.name.offset_bounds
  have hnumber := Kind.number_lt h.kind
  have hflags := h.kindFlags_lt
  have hkind : d.kind.number + 32 * unread.kindFlags < 256 := by omega
  refine ((reads_pointer h.size_lt).readsAt _).bind ?_
  refine ((Reads.skipPointers (by simp [length_words])).readsAt _).bind ?_
  refine ((Reads.word (by exact h.hash_lt)).readsAt _).bind ?_
  refine ((Reads.byte h.flags_lt).readsAt _).bind ?_
  refine ((Reads.skip_of_length rfl).readsAt _).bind ?_
  refine ((Reads.byte hkind).readsAt _).bind ?_
  refine ((Reads.skipPointers (by simp [length_words])).readsAt _).bind ?_
  refine ((reads_offset hlow hhigh).readsAt _).bind ?_
  refine ((Reads.skip_of_length (by simp [offsetBytes])).readsAt _).bind ?_
  rw [htext, Kind.ofByte_number_add h.kind]
  refine ((Reads.pure text).readsAt _).nil_bind ?_
  rw [hname]
  refine ReadsAt.bind_nil (.of_eq ?_ (readsAt_shape hencoding hapart h.shape)) (.pure d)
  simp only [headerSize, length_words, offsetBytes, ByteOrder.length_encode, List.length_cons,
    List.length_nil]
  omega

/-- A descriptor is read as it is written. -/
theorem read_eq_of_isWritten (hencoding : r.encoding ≠ .probe) (hapart : r.image.Apart)
    (h : r.IsWritten d unread nameOffset tail) : r.read d.va = .ok d := by
  have hne : r.descriptorBytes d unread nameOffset tail ≠ [] := by
    refine List.ne_nil_of_length_pos ?_
    simp only [descriptorBytes, List.length_append, ByteOrder.length_encode]
    omega
  rw [read, h.written.decodeAt_eq hapart hne (readsAt_descriptor hencoding hapart h)]
  rfl

/-! ## A struct with an embedded field -/

def pairBytes : List UInt8 := [
    0, 0, 0, 0xa, 0x2a, 0x6d, 0x61, 0x69, 0x6e, 0x2e, 0x50, 0x61, 0x69, 0x72, 1, 0, 1, 0x58,
    2, 0, 2, 0xcf, 0x80, 0, 8, 0x6a, 0x73, 0x6f, 0x6e, 0x3a, 0x22, 0x70, 0x22, 0, 0, 0, 0x10,
    0, 0, 0, 4, 0, 0, 0, 0x78, 0x56, 0x34, 0x12, 6, 4, 4, 0x19, 0, 0, 0, 0, 0, 0, 0, 0, 1, 0,
    0, 0, 0, 0, 0, 0, 0, 0, 0, 0, 0x54, 0x10, 0, 0, 2, 0, 0, 0, 2, 0, 0, 0, 0xe, 0x10, 0, 0,
    0, 0x20, 0, 0, 0, 0, 0, 0, 0x12, 0x10, 0, 0, 4, 0x20, 0, 0, 0x11, 0, 0, 0]

def pairReader : TypeReader :=
  { image := .ofSection .four .little ".rodata" 0x1000 pairBytes
    base := 0x1000
    encoding := .legacy
    offsetsCarryBit := true }

def pairFields : List FieldEntry := [
  { name := { text := "X", flags := 1 }, nameVa := 0x100e, type := 0x2000, offset := 0
    embedded := false },
  { name := { text := "π", tag := some "json:\"p\"", flags := 2 }, nameVa := 0x1012
    type := 0x2004, offset := 8, embedded := true }]

def pairDescriptor : Descriptor :=
  { va := 0x1024, size := 16, hash := 0x12345678, flags := 6, kind := .struct, name := "main.Pair"
    shape := .struct (pairFields.map (·.field)) }

def pairUnread : Unread :=
  { ptrdata := 4, align := 4, fieldAlign := 4, kindFlags := 0, equal := 0, gcdata := 0
    ptrToThis := 0 }

instance (n : Nat) : Decidable (r.IsWord n) :=
  inferInstanceAs (Decidable (n < 256 ^ r.image.pointerSize.bytes))

theorem written_pair {part : List UInt8} (hne : part ≠ []) (hva : 0x1000 ≤ va)
    (h : StandsAt part ⟨pairBytes.toArray⟩ (va - 0x1000)) : pairReader.image.Written part va :=
  Image.written_ofSection hne hva h

theorem hasField_pair : ∀ e ∈ pairFields, pairReader.HasField e := by
  refine List.forall_mem_cons.2 ⟨?_, List.forall_mem_singleton.2 ?_⟩
  all_goals
    refine ⟨by decide, by decide, by decide, .inr ⟨by decide, ⟨by decide, by decide, by decide,
      by decide⟩, ?_⟩, by decide, by decide⟩
    exact written_pair Name.bytes_ne_nil (by decide) (by decide +kernel)

theorem isWritten_pairDescriptor : pairReader.IsWritten pairDescriptor pairUnread 1
    (pairReader.words [0] ++ pairReader.words [0x1054, pairFields.length, 2]) where
  size_lt := by decide
  hash_lt := by decide
  flags_lt := by decide
  kind := trivial
  kindFlags_lt := by decide
  name := by
    have hname : pairReader.HasName 0x1001 { text := "*main.Pair" } :=
      ⟨⟨by decide, by decide, by decide, by decide⟩,
        written_pair Name.bytes_ne_nil (by decide) (by decide +kernel)⟩
    exact .stored (by decide) ⟨by decide, by decide, by decide, by decide⟩ hname
      (by decide +kernel)
  shape := .struct ⟨by decide, by decide, by decide,
    .inr (written_pair (by decide +kernel) (by decide) (by decide +kernel))⟩ hasField_pair
  written := written_pair (by decide +kernel) (by decide) (by decide +kernel)

/-- The star in front of the stored name is gone, and the lowest bit of an offset has become the
mark of the embedded field. -/
theorem read_pairDescriptor :
    Image.ofBytes pairReader.image.data = .ok pairReader.image ∧
      pairReader.encoding ≠ .probe ∧ pairReader.image.Apart ∧
      pairReader.read pairDescriptor.va = .ok pairDescriptor :=
  ⟨Image.ofBytes_ofSection (by decide) (by decide) (by decide) (by decide +kernel), by decide,
    Image.apart_ofSection,
    read_eq_of_isWritten (by decide) Image.apart_ofSection isWritten_pairDescriptor⟩

end TypeReader

end GoImage
