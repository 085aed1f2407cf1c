import GoImage.Proofs.TypeInfo.PlainText

/-! # Texts that say less

Of two texts of one type, the one that cuts a reference which the other one writes out says less.
No literal begins like a cut reference, so the first character in which the texts differ tells
which one it is. -/

namespace GoImage

/-! ## The first difference -/

/-- How much a character can be the beginning of a written type: a cut reference begins with `<r`,
and no literal does. -/
def cutRank (c : Char) : Nat :=
  if c = '<' then 0 else if c = 'r' then 1 else 2

/-- Where two texts first differ, the left one is closer to a cut reference. -/
inductive CutBefore : List Char → List Char → Prop
  | here {x y : Char} {s t : List Char} (h : cutRank x < cutRank y) : CutBefore (x :: s) (y :: t)
  | there (a : Char) {s t : List Char} (h : CutBefore s t) : CutBefore (a :: s) (a :: t)

namespace CutBefore

variable {s t : List Char}

theorem asymm (h : CutBefore s t) : ¬ CutBefore t s := by
  induction h with
  | here hlt =>
      intro h
      cases h with
      | here hgt => exact Nat.lt_asymm hlt hgt
      | there a h => exact Nat.lt_irrefl _ hlt
  | there a h ih =>
      intro h
      cases h with
      | here hgt => exact Nat.lt_irrefl _ hgt
      | there a h => exact ih h

theorem append_left (p : List Char) (h : CutBefore s t) : CutBefore (p ++ s) (p ++ t) := by
  induction p with
  | nil => exact h
  | cons a p ih => exact .there a ih

theorem append_right (h : CutBefore s t) (u v : List Char) : CutBefore (s ++ u) (t ++ v) := by
  induction h with
  | here hlt => exact .here hlt
  | there a _ ih => exact .there a ih

end CutBefore

/-! ## Texts that are no fuller -/

/-- Two texts are the same, or the left one cuts a reference that the right one writes out. -/
def NoFuller (s t : String) : Prop :=
  s = t ∨ CutBefore s.toList t.toList

theorem NoFuller.antisymm {s t : String} (hst : NoFuller s t) (hts : NoFuller t s) : s = t := by
  rcases hst with rfl | hst
  · rfl
  · rcases hts with rfl | hts
    · rfl
    · exact absurd hts hst.asymm

theorem TextRel.noFuller : TextRel NoFuller := by
  constructor
  · exact fun s => .inl rfl
  · intro a b c d hab hcd
    unfold NoFuller
    rw [String.toList_append, String.toList_append]
    rcases hab with rfl | hab
    · rcases hcd with rfl | hcd
      · exact .inl rfl
      · exact .inr (hcd.append_left a.toList)
    · exact .inr (hab.append_right c.toList d.toList)

/-! ## Cut references come first -/

/-- Whether a text begins in a way in which no cut reference does. -/
def beginsFuller : List Char → Bool
  | [] => false
  | [c] => c ≠ '<'
  | c :: c' :: _ => c ≠ '<' || (c' ≠ '<' && c' ≠ 'r')

theorem beginsFuller_append {s : List Char} (h : beginsFuller s = true) (t : List Char) :
    beginsFuller (s ++ t) = true := by
  cases s with
  | nil => cases h
  | cons c s =>
      cases s with
      | nil =>
          have hc : c ≠ '<' := of_decide_eq_true h
          cases t <;> simp [beginsFuller, hc]
      | cons c' s => exact h

theorem cutBefore_of_beginsFuller {t : List Char} (h : beginsFuller t = true) (s : List Char) :
    CutBefore ('<' :: 'r' :: s) t := by
  have hhere : ∀ {c : Char} {t : List Char}, c ≠ '<' → CutBefore ('<' :: 'r' :: s) (c :: t) := by
    intro c t hc
    refine .here ?_
    unfold cutRank
    rw [if_pos rfl, if_neg hc]
    split <;> decide
  cases t with
  | nil => cases h
  | cons c t =>
      by_cases hc : c = '<'
      · subst hc
        cases t with
        | nil => cases h
        | cons c' t =>
            obtain ⟨hlt, hr⟩ : c' ≠ '<' ∧ c' ≠ 'r' := by simpa [beginsFuller] using h
            refine .there _ (.here ?_)
            unfold cutRank
            rw [if_neg hlt, if_neg hr]
            decide
      · exact hhere hc

theorem noFuller_backReferenceText (va : Nat) {text : String}
    (h : beginsFuller text.toList = true) : NoFuller (backReferenceText va) text := by
  refine .inr ?_
  unfold backReferenceText
  rw [String.toList_append, String.toList_append]
  exact cutBefore_of_beginsFuller h _

theorem beginsFuller_basic (kind : Kind) :
    beginsFuller (kind.builtin?.getD ("<" ++ kind.name ++ ">")).toList = true := by
  cases kind with
  | unknown raw =>
      change beginsFuller ("<" ++ ("Unknown(" ++ toString raw ++ ")") ++ ">").toList = true
      simp only [String.toList_append, List.append_assoc]
      rfl
  | _ => rfl

theorem beginsFuller_append_text {s : String} (h : beginsFuller s.toList = true) (t : String) :
    beginsFuller (s ++ t).toList = true := by
  rw [String.toList_append]
  exact beginsFuller_append h t.toList

theorem beginsFuller_inlineMembers {keyword : String} (h : beginsFuller keyword.toList = true)
    (members : List String) : beginsFuller (inlineMembers keyword members).toList = true := by
  unfold inlineMembers
  split
  · exact beginsFuller_append_text h _
  · rw [String.append_assoc, String.append_assoc]
    exact beginsFuller_append_text h _

/-- Whatever the references in a literal are, it begins in a way in which no cut reference does. -/
theorem exists_literal_eq_map {m : Type → Type} [Monad m] [LawfulMonad m] (s : Speller m)
    (d : Descriptor) : ∃ (α : Type) (x : m α) (f : α → String),
      s.literal d = f <$> x ∧ ∀ a, beginsFuller (f a).toList = true := by
  unfold Speller.literal
  cases d.shape with
  | basic =>
      exact ⟨Unit, pure (), fun _ => d.kind.builtin?.getD ("<" ++ d.kind.name ++ ">"),
        by rw [map_pure], fun _ => beginsFuller_basic d.kind⟩
  | array elem length =>
      refine ⟨String, s.reference elem, fun t => s!"[{length}]" ++ t, bind_pure_comp _ _,
        fun t => ?_⟩
      change beginsFuller ("[" ++ toString length ++ "]" ++ t).toList = true
      rw [String.append_assoc, String.append_assoc]
      exact beginsFuller_append_text rfl _
  | chan elem dir =>
      have hkeyword : beginsFuller dir.keyword.toList = true := by cases dir <;> rfl
      exact ⟨String, s.reference elem, (dir.keyword ++ ·), bind_pure_comp _ _,
        beginsFuller_append_text hkeyword⟩
  | func params results variadic =>
      exact ⟨String, s.signature params results variadic, ("func" ++ ·), bind_pure_comp _ _,
        beginsFuller_append_text rfl⟩
  | interface methods =>
      exact ⟨List String, methods.mapM s.method, inlineMembers "interface", bind_pure_comp _ _,
        beginsFuller_inlineMembers rfl⟩
  | map key elem =>
      refine ⟨String × String, (do return (← s.reference key, ← s.reference elem)),
        fun (k, e) => "map[" ++ k ++ "]" ++ e, by simp, fun (k, e) => ?_⟩
      dsimp only
      rw [String.append_assoc, String.append_assoc]
      exact beginsFuller_append_text rfl _
  | pointer elem =>
      exact ⟨String, s.reference elem, ("*" ++ ·), bind_pure_comp _ _, beginsFuller_append_text rfl⟩
  | slice elem =>
      exact ⟨String, s.reference elem, ("[]" ++ ·), bind_pure_comp _ _,
        beginsFuller_append_text rfl⟩
  | struct fields =>
      exact ⟨List String, fields.mapM s.field, inlineMembers "struct", bind_pure_comp _ _,
        beginsFuller_inlineMembers rfl⟩

/-- The literal of a type begins in a way in which no cut reference does. -/
theorem beginsFuller_literal {read : Nat → Except Error Descriptor} {f : Nat → Option String}
    {d : Descriptor} {text : String} (h : (plainSpelling read f).literal d = some text) :
    beginsFuller text.toList = true := by
  obtain ⟨_, _, g, hliteral, hbegins⟩ := exists_literal_eq_map (plainSpelling read f) d
  rw [hliteral] at h
  obtain ⟨a, -, rfl⟩ := Option.map_eq_some_iff.1 h
  exact hbegins a

/-- Where a type without a name has a plain text, a cut reference to it says less. -/
theorem noFuller_plainReference {read : Nat → Except Error Descriptor} {va : Nat} {text : String}
    (hva : Unnamed read va) (h : plainReference read va = some text) :
    NoFuller (backReferenceText va) text := by
  obtain ⟨d, hread, hd⟩ := hva
  rw [plainReference_of_unnamed hread hd] at h
  exact noFuller_backReferenceText va (beginsFuller_literal h)

end GoImage
