import GoImage.Proofs.Text.Append
import Mathlib.Data.String.Basic

/-! # Exactly one literal

The end of a literal is counted in bytes while its characters are read. It comes to the length of
the literal, and lies between two characters, so that what follows can be sliced off. -/

namespace GoImage.Text

/-! ## Lengths in bytes -/

/-- Characters with the bytes at which they start. -/
def indexed (start : Nat) : List Char → List (Nat × Char)
  | [] => []
  | c :: cs => (start, c) :: indexed (start + c.utf8Size) cs

namespace Indexed

/-- The text up to the closing double quote, and the byte behind it. -/
def interpreted? : List (Nat × Char) → Option (List Char × Nat)
  | [] => none
  | (index, c) :: rest =>
    if c = '"' then some ([], index + 1)
    else if c = '\n' then none
    else if c = '\\' then
      match escape? (rest.map (·.2)) with
      | none => none
      | some (value, width) =>
        (interpreted? (rest.drop width)).map fun read => (value :: read.1, read.2)
    else (interpreted? rest).map fun read => (c :: read.1, read.2)
termination_by cs => cs.length
decreasing_by
  · simp only [List.length_cons, List.length_drop]
    omega
  · simp

/-- The text up to the closing backquote, and the byte behind it. -/
def raw? : List (Nat × Char) → Option (List Char × Nat)
  | [] => none
  | (index, c) :: rest =>
    if c = backquote then some ([], index + 1)
    else (raw? rest).map fun read => (c :: read.1, read.2)

/-- The text of the literal at the front, and the byte behind the literal. -/
def literal? : List (Nat × Char) → Option (List Char × Nat)
  | [] => none
  | (_, c) :: rest =>
    if c = '"' then interpreted? rest
    else if c = backquote then raw? rest
    else none

end Indexed

/-- The text of the literal at the front of a text, and how many bytes the literal takes. -/
def unquoted? (input : String) : Option (String × Nat) :=
  (Indexed.literal? (indexed 0 input.toList)).map fun read => (String.ofList read.1, read.2)

section Bytes

variable {start : Nat} {cs text rest : List Char}

theorem map_indexed (start : Nat) (cs : List Char) : (indexed start cs).map (·.2) = cs := by
  induction cs generalizing start with
  | nil => rfl
  | cons c cs ih => rw [indexed, List.map_cons, ih]

theorem drop_indexed (start count : Nat) (cs : List Char) :
    (indexed start cs).drop count =
      indexed (start + String.utf8Len (cs.take count)) (cs.drop count) := by
  induction count generalizing start cs with
  | zero => simp
  | succ count ih =>
      cases cs with
      | nil => simp [indexed]
      | cons c cs =>
          rw [indexed, List.drop_succ_cons, ih, List.take_succ_cons, List.drop_succ_cons,
            String.utf8Len_cons]
          congr 1
          omega

/-- The text that is read from some characters, and where the rest starts. -/
def stopAt (start : Nat) (cs : List Char) (read : List Char × List Char) : List Char × Nat :=
  (read.1, start + String.utf8Len cs - String.utf8Len read.2)

/-- Places are counted from the same end for any beginning. -/
theorem map_stopAt {start' : Nat} {cs' : List Char}
    (h : start' + String.utf8Len cs' = start + String.utf8Len cs) (c : Char)
    (read : Option (List Char × List Char)) :
    (read.map (stopAt start' cs')).map (fun read => (c :: read.1, read.2)) =
      (read.map fun (text, rest) => (c :: text, rest)).map (stopAt start cs) := by
  cases read with
  | none => rfl
  | some read => simp [stopAt, h]

theorem stopAt_nil (start : Nat) {c : Char} (hc : c.utf8Size = 1) (rest : List Char) :
    stopAt start (c :: rest) ([], rest) = ([], start + 1) := by
  rw [stopAt, String.utf8Len_cons, hc]
  congr 1
  dsimp only
  omega

namespace Indexed

theorem interpreted?_indexed (start : Nat) (cs : List Char) :
    interpreted? (indexed start cs) = (Text.interpreted? cs).map (stopAt start cs) := by
  fun_induction Text.interpreted? cs generalizing start with
  | case1 => simp [indexed, interpreted?]
  | case2 cs =>
      rw [indexed, interpreted?, if_pos rfl, Option.map_some, stopAt_nil start rfl]
  | case3 cs hquote => simp [indexed, interpreted?]
  | case4 cs hescape hquote hline =>
      simp [indexed, interpreted?, map_indexed, hescape]
  | case5 cs c width hescape hquote hline ih =>
      have hlength : String.utf8Len cs =
          String.utf8Len (cs.take width) + String.utf8Len (cs.drop width) := by
        rw [← String.utf8Len_append, List.take_append_drop]
      have hsize : '\\'.utf8Size = 1 := rfl
      rw [indexed, interpreted?, if_neg hquote, if_neg hline, if_pos rfl, map_indexed, hescape]
      dsimp only
      rw [drop_indexed, ih, map_stopAt]
      rw [String.utf8Len_cons]
      omega
  | case6 c cs hquote hline hbackslash ih =>
      rw [indexed, interpreted?, if_neg hquote, if_neg hline, if_neg hbackslash, ih, map_stopAt]
      rw [String.utf8Len_cons]
      omega

theorem raw?_indexed (start : Nat) (cs : List Char) :
    raw? (indexed start cs) = (Text.raw? cs).map (stopAt start cs) := by
  induction cs generalizing start with
  | nil => rfl
  | cons c cs ih =>
      rw [indexed, raw?, Text.raw?]
      by_cases hc : c = backquote
      · rw [if_pos hc, if_pos hc, Option.map_some, stopAt_nil start (hc ▸ rfl)]
      · rw [if_neg hc, if_neg hc, ih, map_stopAt]
        rw [String.utf8Len_cons]
        omega

theorem literal?_indexed (start : Nat) (cs : List Char) :
    literal? (indexed start cs) = (Text.literal? cs).map (stopAt start cs) := by
  cases cs with
  | nil => rfl
  | cons c cs =>
      rw [indexed, literal?, Text.literal?]
      have hstop : stopAt (start + c.utf8Size) cs = stopAt start (c :: cs) := by
        funext read
        rw [stopAt, stopAt, String.utf8Len_cons]
        congr 2
        omega
      by_cases hquote : c = '"'
      · rw [if_pos hquote, if_pos hquote, interpreted?_indexed, hstop]
      rw [if_neg hquote, if_neg hquote]
      by_cases hc : c = backquote
      · rw [if_pos hc, if_pos hc, raw?_indexed, hstop]
      · rw [if_neg hc, if_neg hc]
        rfl

end Indexed

end Bytes

/-! ## One literal of a text -/

section Unquoted

variable {input s : String} {consumed : Nat}

/-- Counting bytes while reading comes to what the rest leaves. -/
theorem unquoted?_eq (input : String) :
    unquoted? input = (literal? input.toList).map fun read =>
      (String.ofList read.1, input.utf8ByteSize - (String.ofList read.2).utf8ByteSize) := by
  have hsize : input.utf8ByteSize = String.utf8Len input.toList := by
    rw [← String.utf8ByteSize_ofList, String.ofList_toList]
  rw [unquoted?, Indexed.literal?_indexed, Option.map_map, hsize]
  congr 1
  funext read
  simp [stopAt, String.utf8ByteSize_ofList]

theorem unquoted?_eq_some_iff :
    unquoted? input = some (s, consumed) ↔
      ∃ q r : String, input = q ++ r ∧ IsLiteral q.toList s.toList ∧ consumed = q.utf8ByteSize := by
  rw [unquoted?_eq]
  constructor
  · intro h
    obtain ⟨⟨text, rest⟩, hread, hpair⟩ := Option.map_eq_some_iff.1 h
    obtain ⟨rfl, rfl⟩ := Prod.mk.inj hpair
    obtain ⟨literal, hliteral, hsplit⟩ := literal?_eq_some_iff.1 hread
    have hinput : input = String.ofList literal ++ String.ofList rest := by
      rw [← String.ofList_append, ← hsplit, String.ofList_toList]
    refine ⟨String.ofList literal, String.ofList rest, hinput, ?_, ?_⟩
    · rwa [String.toList_ofList, String.toList_ofList]
    · rw [hinput, String.utf8ByteSize_append, Nat.add_sub_cancel_right]
  · rintro ⟨q, r, rfl, hliteral, rfl⟩
    rw [String.toList_append, hliteral.read]
    simp

/-- What follows a literal starts between two characters, and is sliced off there. -/
theorem isValid_of_append (q r : String) :
    String.Pos.Raw.IsValid (q ++ r) ⟨q.utf8ByteSize⟩ ∧
      (q ++ r).toByteArray.extract q.utf8ByteSize (q ++ r).utf8ByteSize = r.toByteArray := by
  refine ⟨String.Pos.Raw.isValid_iff_exists_append.2 ⟨q, r, rfl, rfl⟩, ?_⟩
  rw [String.toByteArray_append]
  exact ByteArray.extract_append_eq_right rfl String.utf8ByteSize_append

/-- Exactly one literal is read from a text: any literal with anything behind it gives its text and
its length in bytes, a literal that is cut gives nothing, and whatever is read was a literal. Its
length is a place between two characters, where the rest of the text can be sliced off. -/
theorem unquoted?_exact :
    (∀ input, unquoted? input = (literal? input.toList).map fun read =>
      (String.ofList read.1, input.utf8ByteSize - (String.ofList read.2).utf8ByteSize)) ∧
    (∀ q s : String, IsLiteral q.toList s.toList →
      (∀ r, unquoted? (q ++ r) = some (s, q.utf8ByteSize)) ∧
      ∀ cut more, q = cut ++ more → more ≠ "" → unquoted? cut = none) ∧
    ∀ input s consumed, unquoted? input = some (s, consumed) →
      String.Pos.Raw.IsValid input ⟨consumed⟩ ∧
      ∃ q r : String, input = q ++ r ∧ IsLiteral q.toList s.toList ∧ consumed = q.utf8ByteSize ∧
        literal? input.toList = some (s.toList, r.toList) ∧
        input.toByteArray.extract consumed input.utf8ByteSize = r.toByteArray := by
  refine ⟨unquoted?_eq, fun q s hliteral => ⟨fun r => ?_, ?_⟩, ?_⟩
  · exact unquoted?_eq_some_iff.2 ⟨q, r, rfl, hliteral, rfl⟩
  · rintro cut more rfl hmore
    rw [String.toList_append] at hliteral
    rw [unquoted?_eq, hliteral.read_cut (mt String.toList_eq_nil_iff.1 hmore)]
    rfl
  · intro input s consumed hread
    obtain ⟨q, r, rfl, hliteral, rfl⟩ := unquoted?_eq_some_iff.1 hread
    obtain ⟨hvalid, hslice⟩ := isValid_of_append q r
    refine ⟨hvalid, q, r, rfl, hliteral, rfl, ?_, hslice⟩
    rw [String.toList_append]
    exact hliteral.read r.toList

/-- A character by its code in front of one that takes two bytes. -/
theorem unquoted?_codeAndAccent :
    IsLiteral "\"\\x41é\"".toList "Aé".toList ∧
    unquoted? ("\"\\x41é\"" ++ " rest") = some ("Aé", 8) ∧
    unquoted? "\"\\x41é" = none ∧
    String.Pos.Raw.IsValid ("\"\\x41é\"" ++ " rest") ⟨8⟩ := by
  obtain ⟨-, hliteral, hread⟩ := unquoted?_exact
  have hdigits : Denotes 16 ['4', '1'] 65 :=
    @Denotes.snoc 16 ['4'] '1' 4 1 (@Denotes.snoc 16 [] '4' 0 4 .nil rfl (by decide)) rfl
      (by decide)
  have hcode : Spells 'A' ['\\', 'x', '4', '1'] := .hex (by decide) hdigits
  have haccent : Spells 'é' ['é'] := .plain (by decide) (by decide) (by decide)
  have hspelled : IsLiteral "\"\\x41é\"".toList "Aé".toList :=
    @IsLiteral.interpreted [('A', ['\\', 'x', '4', '1']), ('é', ['é'])]
      (List.forall_mem_cons.2 ⟨hcode, List.forall_mem_singleton.2 haccent⟩)
  obtain ⟨hwhole, hcut⟩ := hliteral _ _ hspelled
  have hsome := hwhole " rest"
  exact ⟨hspelled, hsome, hcut _ "\"" rfl (by decide), (hread _ _ _ hsome).1⟩

end Unquoted

end GoImage.Text
