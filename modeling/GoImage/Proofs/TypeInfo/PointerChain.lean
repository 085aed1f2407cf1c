import GoImage.Proofs.Image.Named
import GoImage.Proofs.TypeInfo.Fullest
import GoImage.TypeInfo.Reader

/-! # Chains of pointers

Pointers of which each one points to the next are the plainest types that can nest too deep. Their
plain text has a star for each of them; without help, a catalogue only writes as many as there is
room for. -/

namespace GoImage

/-! ## Texts of a chain -/

/-- The first types at these addresses are pointers without a name, each one to the next. -/
def PointerChain (read : Nat → Except Error Descriptor) (va : Nat → Nat) (n : Nat) : Prop :=
  ∀ i < n, ∃ d, read (va i) = .ok d ∧ d.isNamed = false ∧ d.shape = .pointer (va (i + 1))

/-- A text with stars in front. -/
def stars : Nat → String → String
  | 0, text => text
  | n + 1, text => "*" ++ stars n text

theorem literal_pointer {m : Type → Type} [Monad m] (s : Speller m) {d : Descriptor} {va : Nat}
    (h : d.shape = .pointer va) : s.literal d = do return "*" ++ (← s.reference va) := by
  unfold Speller.literal
  rw [h]

namespace PointerChain

variable {read : Nat → Except Error Descriptor} {va : Nat → Nat} {n : Nat}

theorem unnamed (h : PointerChain read va n) {i : Nat} (hi : i < n) : Unnamed read (va i) := by
  obtain ⟨d, hread, hd, -⟩ := h i hi
  exact ⟨d, hread, hd⟩

/-- A link of the chain refers to nothing but the next one. -/
theorem eq_of_refers (h : PointerChain read va n) {i w : Nat} (hi : i < n)
    (hw : Refers read (va i) w) : w = va (i + 1) := by
  obtain ⟨d, hread, -, hshape⟩ := h i hi
  obtain ⟨d', hread', hmem, -⟩ := hw
  obtain rfl : d = d' := Except.ok.inj (hread.symm.trans hread')
  rw [hshape] at hmem
  exact List.mem_singleton.1 hmem

theorem eq_of_leadsIn (h : PointerChain read va n) {i k w : Nat} (hi : i + k ≤ n)
    (hw : Catalogue.LeadsIn read k (va i) w) : w = va (i + k) := by
  induction k generalizing i with
  | zero => exact hw.symm
  | succ k ih =>
      obtain ⟨u, hu, hw⟩ := hw
      rw [h.eq_of_refers (by omega) hu] at hw
      rw [ih (by omega) hw]
      congr 1
      omega

theorem plainReference_eq (h : PointerChain read va n) {text : String}
    (hlast : plainReference read (va n) = some text) {i k : Nat} (hi : i + k = n) :
    plainReference read (va i) = some (stars k text) := by
  induction k generalizing i with
  | zero =>
      obtain rfl : i = n := hi
      exact hlast
  | succ k ih =>
      obtain ⟨d, hread, hd, hshape⟩ := h i (by omega)
      rw [plainReference_of_unnamed hread hd, literal_pointer _ hshape]
      change (plainReference read (va (i + 1)) >>= _) = _
      rw [ih (by omega)]
      rfl

end PointerChain

namespace Catalogue

variable {read : Nat → Except Error Descriptor} {va : Nat → Nat} {n : Nat}

/-- A reference into a chain that is not remembered has as many stars as there is room for. -/
theorem reference_pointerChain (h : PointerChain read va n) (hinj : Function.Injective va)
    {room i : Nat} (hroom : i + room < n) {c : Catalogue} (hc : Sound read c)
    (hrendered : ∀ j, va j ∉ c.rendered) (hprogress : ∀ j, i ≤ j → va j ∉ c.inProgress) :
    ((reference read room (va i)).run c).1 = stars room (backReferenceText (va (i + room))) := by
  induction room generalizing i c with
  | zero =>
      rw [reference_of_cut hc (h.unnamed (by omega)) (hrendered i) (.inl rfl)]
      rfl
  | succ room ih =>
      obtain ⟨d, hread, hd, hshape⟩ := h i (by omega)
      have hsame := hc.sameTexts_remember (va i)
      have hnext := ih (i := i + 1) (by omega)
        ((hc.remember (va i)).writing (va i :: (c.remember read (va i)).inProgress))
        (fun j => hsame.rendered ▸ hrendered j) fun j hj hmem => by
          rcases List.mem_cons.1 hmem with heq | hmem
          · have := hinj heq
            omega
          · exact hprogress j (by omega) (hsame.inProgress ▸ hmem)
      rw [reference_of_written hc hread hd (hrendered i) (hprogress i (Nat.le_refl i)),
        literal_pointer _ hshape]
      change "*" ++ ((reference read room (va (i + 1))).run _).1 = _
      rw [hnext, Nat.add_right_comm, Nat.add_assoc]
      rfl

/-- An empty catalogue writes as many stars for a chain that is too deep as there is room for. -/
theorem declaration_pointerChain (h : PointerChain read va n) (hinj : Function.Injective va)
    (hdeep : maxDepth < n) : ((declaration read (va 0)).run {}).1 =
      stars maxDepth (backReferenceText (va maxDepth)) := by
  have hc := Sound.empty read
  obtain ⟨d, hread, hd, -⟩ := h 0 (by omega)
  have hsame := hc.sameTexts_remember (va 0)
  rw [declaration_of_unnamed hc hread hd, reference_pointerChain h hinj (by omega) (hc.remember _)]
  · rw [Nat.zero_add]
  · intro j
    rw [hsame.rendered]
    exact Std.HashMap.not_mem_empty
  · intro j _
    rw [hsame.inProgress]
    exact List.not_mem_nil

end Catalogue

/-! ## Reading pointers -/

section Reading

open Decoder

/-- A descriptor of 36 bytes without a name, and of the kind of a pointer. -/
theorem read_unnamed_pointer (r : TypeReader) {va size hash next : Nat} {data : ByteArray}
    (h : r.image.bytesFrom va = .ok data) (hpointer : r.image.pointerSize = .four)
    (hfits : 36 ≤ data.size)
    (hsize : r.image.order.readWord 4 data 0 = .ok size)
    (hhash : r.image.order.readWord 4 data 8 = .ok hash)
    (hflags : r.image.order.readWord 1 data 12 = .ok 0)
    (hkind : r.image.order.readWord 1 data 15 = .ok 22)
    (hname : r.image.order.readWord 4 data 24 = .ok 0)
    (hnext : r.image.order.readWord 4 data 32 = .ok next) :
    r.read va = .ok {
      va, size, hash, flags := 0, kind := .pointer, name := "", shape := .pointer next } := by
  have hdescriptor : (r.descriptor va).run (r.image.cursor data) = .ok
      { va, size, hash, flags := 0, kind := .pointer, name := "", shape := .pointer next }
      { r.image.cursor data with pos := 36 } := by
    unfold TypeReader.descriptor Image.cursor
    rw [hpointer]
    have hle : ∀ k ≤ 36, k ≤ data.size := fun k hk => Nat.le_trans hk hfits
    have htext : ∀ c : Cursor,
        (ofExcept (r.nameText (IntType.i32.ofWord 0)) : Decoder String).run c = .ok "" c :=
      fun _ => rfl
    have htarget : pointer.run { data, pos := 32, order := r.image.order, pointerSize := 4 } =
        .ok next { data, pos := 36, order := r.image.order, pointerSize := 4 } := by
      simp [run_pointer, run_wordIn, PointerSize.bytes, PointerSize.ofBytes?, hnext]
    have hshape : (r.shape (Kind.ofByte 22) 0).run
        { data, pos := 32, order := r.image.order, pointerSize := 4 } =
        .ok (.pointer next) { data, pos := 36, order := r.image.order, pointerSize := 4 } := by
      change (pointer >>= fun a => pure (Shape.pointer a)).run _ = _
      rw [EStateM.run_bind, htarget]
      rfl
    unfold IntType.i32 at htext
    simp [-bind_pure_comp, run_pointer, run_wordIn, run_skip, word, int, intIn, skipPointers,
      PointerSize.bytes, PointerSize.ofBytes?, IntType.i32, hsize, hhash, hflags, hkind, hname, hle,
      htext, hshape]
    exact ⟨rfl, rfl⟩
  unfold TypeReader.read Image.decodeAt Decoder.on
  rw [h]
  dsimp only
  rw [hdescriptor]
  rfl

end Reading

/-! ## An image with a chain -/

/-- The address of a link: descriptors of 36 bytes, one behind the other. -/
def linkAddress (i : Nat) : Nat :=
  36 * (i + 1)

/-- A descriptor that says nothing but that it is one of a pointer to the next one. -/
def linkBytes (i : Nat) : List UInt8 :=
  List.replicate 15 0 ++ [22] ++ List.replicate 16 0 ++ littleEndianBytes 4 (linkAddress (i + 1))

def chainBytes (i : Nat) : Nat → List UInt8
  | 0 => []
  | n + 1 => linkBytes i ++ chainBytes (i + 1) n

/-- An image that holds nothing but a chain of pointers, of which the last one points behind the
end. -/
def chainImage (n : Nat) : Image :=
  .ofSection .four .little ".data" (linkAddress 0) (chainBytes 0 n)

theorem length_linkBytes (i : Nat) : (linkBytes i).length = 36 :=
  rfl

theorem length_chainBytes (i n : Nat) : (chainBytes i n).length = 36 * n := by
  induction n generalizing i with
  | zero => rfl
  | succ n ih =>
      rw [chainBytes, List.length_append, ih, length_linkBytes]
      omega

theorem drop_chainBytes (i k n : Nat) :
    (chainBytes i (k + n)).drop (36 * k) = chainBytes (i + k) n := by
  induction k generalizing i with
  | zero => simp
  | succ k ih =>
      rw [Nat.add_right_comm, chainBytes, Nat.mul_succ, Nat.add_comm (36 * k), ← List.drop_drop]
      rw [← length_linkBytes i, List.drop_left, length_linkBytes, ih, Nat.add_assoc, Nat.add_comm 1]

/-- There are files with chains. -/
theorem ofBytes_chainImage {n : Nat} (hfits : linkAddress n + 0x300 < 256 ^ 4) :
    Image.ofBytes (chainImage n).data = .ok (chainImage n) := by
  refine Image.ofBytes_ofSection (by decide) (by decide) (by decide) ?_
  have hname : ".data".utf8ByteSize = 5 := by decide
  rw [length_chainBytes, hname]
  unfold linkAddress at hfits
  omega

theorem bytesFrom_linkAddress {n i : Nat} (hi : i < n) :
    (chainImage n).bytesFrom (linkAddress i) = .ok ⟨(chainBytes i (n - i)).toArray⟩ := by
  have hlength := length_chainBytes 0 n
  have hdistance : linkAddress i = linkAddress 0 + 36 * i := by
    unfold linkAddress
    omega
  have hdrop := drop_chainBytes 0 i (n - i)
  rw [Nat.add_sub_cancel' (Nat.le_of_lt hi), Nat.zero_add] at hdrop
  rw [chainImage, Image.bytesFrom_ofSection (by omega) (by omega), hdistance,
    Nat.add_sub_cancel_left, hdrop]

theorem bytesFrom_linkAddress_end (n : Nat) :
    (chainImage n).bytesFrom (linkAddress n) = .error .outOfBounds := by
  refine Image.bytesFrom_ofSection_outside (.inr ?_)
  rw [length_chainBytes]
  unfold linkAddress
  omega

theorem read_linkAddress {r : TypeReader} {n : Nat} (himage : r.image = chainImage n) {i : Nat}
    (hi : i < n) (hfits : linkAddress (i + 1) < 256 ^ 4) :
    r.read (linkAddress i) = .ok {
      va := linkAddress i, size := 0, hash := 0, flags := 0, kind := .pointer, name := ""
      shape := .pointer (linkAddress (i + 1)) } := by
  obtain ⟨k, hk⟩ := Nat.exists_eq_add_of_lt hi
  have hbytes := bytesFrom_linkAddress hi
  rw [show n - i = k + 1 by omega, ← himage] at hbytes
  have hlength : (linkBytes i ++ chainBytes (i + 1) k).length = 36 + 36 * k := by
    rw [List.length_append, length_linkBytes, length_chainBytes]
  have hword : ∀ width offset : Nat, offset + width ≤ 36 →
      r.image.order.readWord width ⟨(linkBytes i ++ chainBytes (i + 1) k).toArray⟩ offset =
        .ok (littleEndian (((linkBytes i ++ chainBytes (i + 1) k).drop offset).take width)) := by
    intro width offset hle
    rw [ByteOrder.readWord_toArray _ (by omega), himage]
    rfl
  have hnext := hword 4 32 (by omega)
  have hlast : ((linkBytes i ++ chainBytes (i + 1) k).drop 32).take 4 =
      littleEndianBytes 4 (linkAddress (i + 1)) := rfl
  rw [hlast, littleEndian_littleEndianBytes hfits] at hnext
  refine read_unnamed_pointer r hbytes (by rw [himage]; rfl) ?_ (hword 4 0 (by omega))
    (hword 4 8 (by omega)) (hword 1 12 (by omega)) (hword 1 15 (by omega)) (hword 4 24 (by omega))
    hnext
  change 36 ≤ (linkBytes i ++ chainBytes (i + 1) k).length
  omega

theorem read_linkAddress_end {r : TypeReader} {n : Nat} (himage : r.image = chainImage n) :
    r.read (linkAddress n) = .error (.descriptor (linkAddress n) .outOfBounds) := by
  unfold TypeReader.read Image.decodeAt
  rw [himage, bytesFrom_linkAddress_end]
  rfl

theorem pointerChain_chainImage {r : TypeReader} {n : Nat} (himage : r.image = chainImage n)
    (hfits : linkAddress n < 256 ^ 4) : PointerChain r.read linkAddress n := by
  intro i hi
  have hnext : linkAddress (i + 1) < 256 ^ 4 := by
    unfold linkAddress at hfits ⊢
    omega
  exact ⟨_, read_linkAddress himage hi hnext, by simp [Descriptor.isNamed], rfl⟩

theorem linkAddress_injective : Function.Injective linkAddress := by
  intro i j h
  unfold linkAddress at h
  omega

end GoImage
