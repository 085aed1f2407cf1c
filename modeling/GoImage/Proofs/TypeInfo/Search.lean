import GoImage.Error
import GoImage.TypeInfo.Descriptor
import Mathlib.Data.Finset.Card
import Mathlib.Data.Prod.Lex
import Mathlib.Logic.Relation
import Mathlib.Order.Bounds.Basic

/-! # What a search finds

The types that roots lead to are the least set with the roots in which every type that can be read
has all types that it mentions. A search for them needs no bound: where finitely many types can be
read it ends, in whatever order it looks at what is pending, and it has seen this set then. -/

namespace GoImage

/-! ## What a type mentions -/

/-- Which addresses a shape mentions: the element and the key of what has them, parameters and
results, the signatures of methods that state one, and the types of fields. -/
inductive Shape.Mentions : Shape → Nat → Prop
  | array (elem length : Nat) : Mentions (.array elem length) elem
  | chan (elem : Nat) (dir : ChanDir) : Mentions (.chan elem dir) elem
  | param {params results : List Nat} {variadic : Bool} {va : Nat} (h : va ∈ params) :
      Mentions (.func params results variadic) va
  | result {params results : List Nat} {variadic : Bool} {va : Nat} (h : va ∈ results) :
      Mentions (.func params results variadic) va
  | method {methods : List Method} {name : String} {va : Nat} (h : ⟨name, some va⟩ ∈ methods) :
      Mentions (.interface methods) va
  | key (key elem : Nat) : Mentions (.map key elem) key
  | value (key elem : Nat) : Mentions (.map key elem) elem
  | pointer (elem : Nat) : Mentions (.pointer elem) elem
  | slice (elem : Nat) : Mentions (.slice elem) elem
  | field {fields : List Field} {field : Field} (h : field ∈ fields) :
      Mentions (.struct fields) field.type

theorem Shape.mem_children_iff {shape : Shape} {va : Nat} :
    va ∈ shape.children ↔ shape.Mentions va := by
  constructor
  · intro h
    cases shape with
    | basic => exact absurd h List.not_mem_nil
    | array elem length => exact List.mem_singleton.1 h ▸ .array elem length
    | chan elem dir => exact List.mem_singleton.1 h ▸ .chan elem dir
    | func params results variadic => exact (List.mem_append.1 h).elim .param .result
    | interface methods =>
        obtain ⟨⟨name, type⟩, hmethod, htype⟩ := List.mem_filterMap.1 h
        cases htype
        exact .method hmethod
    | map key elem =>
        rcases List.mem_pair.1 h with rfl | rfl
        · exact .key va elem
        · exact .value key va
    | pointer elem => exact List.mem_singleton.1 h ▸ .pointer elem
    | slice elem => exact List.mem_singleton.1 h ▸ .slice elem
    | struct fields =>
        obtain ⟨field, hfield, rfl⟩ := List.mem_map.1 h
        exact .field hfield
  · intro h
    cases h with
    | array | chan | pointer | slice => exact List.mem_singleton.2 rfl
    | param h => exact List.mem_append_left _ h
    | result h => exact List.mem_append_right _ h
    | method h => exact List.mem_filterMap.2 ⟨_, h, rfl⟩
    | key => exact List.mem_pair.2 (.inl rfl)
    | value => exact List.mem_pair.2 (.inr rfl)
    | field h => exact List.mem_map.2 ⟨_, h, rfl⟩

/-- Whether the type at an address can be read and mentions another one. -/
def MentionsAt (read : Nat → Except Error Descriptor) (va child : Nat) : Prop :=
  ∃ d, read va = .ok d ∧ d.shape.Mentions child

theorem mentionsAt_iff {read : Nat → Except Error Descriptor} {va child : Nat} {d : Descriptor}
    (h : read va = .ok d) : MentionsAt read va child ↔ child ∈ d.shape.children := by
  rw [Shape.mem_children_iff]
  constructor
  · rintro ⟨d', hread, hmentions⟩
    obtain rfl := Except.ok.inj (h.symm.trans hread)
    exact hmentions
  · exact fun hmentions => ⟨d, h, hmentions⟩

theorem not_mentionsAt {read : Nat → Except Error Descriptor} {va : Nat} {e : Error}
    (h : read va = .error e) (child : Nat) : ¬ MentionsAt read va child :=
  fun ⟨_, hread, _⟩ => nomatch h.symm.trans hread

instance (read : Nat → Except Error Descriptor) (va child : Nat) :
    Decidable (MentionsAt read va child) :=
  match h : read va with
  | .ok _ => decidable_of_iff _ (mentionsAt_iff h).symm
  | .error _ => isFalse (not_mentionsAt h child)

/-- An address that is not zero, and is a root or is mentioned by a type that is reached. -/
inductive Reached (read : Nat → Except Error Descriptor) (roots : List Nat) : Nat → Prop
  | root {va : Nat} (hva : va ∈ roots) (hzero : va ≠ 0) : Reached read roots va
  | child {va child : Nat} (h : Reached read roots va) (hchild : MentionsAt read va child)
    (hzero : child ≠ 0) : Reached read roots child

namespace Reached

variable {read : Nat → Except Error Descriptor} {roots roots' : List Nat} {va : Nat}

theorem trans (h : Reached read roots va)
    (hroots : ∀ u ∈ roots, u ≠ 0 → Reached read roots' u) : Reached read roots' va := by
  induction h with
  | root hva hzero => exact hroots _ hva hzero
  | child _ hchild hzero ih => exact ih.child hchild hzero

theorem mono (h : Reached read roots va) (hsub : roots ⊆ roots') : Reached read roots' va :=
  h.trans fun _ hu hzero => .root (hsub hu) hzero

/-- Roots lead where any one of them leads. -/
theorem append_iff :
    Reached read (roots ++ roots') va ↔ Reached read roots va ∨ Reached read roots' va := by
  constructor
  · intro h
    induction h with
    | root hva hzero =>
        rcases List.mem_append.1 hva with hva | hva
        · exact .inl (.root hva hzero)
        · exact .inr (.root hva hzero)
    | child _ hchild hzero ih =>
        rcases ih with h | h
        · exact .inl (h.child hchild hzero)
        · exact .inr (h.child hchild hzero)
  · rintro (h | h)
    · exact h.mono (List.subset_append_left roots roots')
    · exact h.mono (List.subset_append_right roots roots')

end Reached

/-! ## Closed sets -/

/-- Roots lead to the same addresses in whatever order they are given and how often. -/
theorem Reached.congr {read : Nat → Except Error Descriptor} {roots roots' : List Nat}
    (hroots : ∀ va, va ≠ 0 → (va ∈ roots ↔ va ∈ roots')) (va : Nat) :
    Reached read roots va ↔ Reached read roots' va := by
  constructor
  · intro h
    exact h.trans fun u hu hzero => .root ((hroots u hzero).mp hu) hzero
  · intro h
    exact h.trans fun u hu hzero => .root ((hroots u hzero).mpr hu) hzero

/-! ## A search without a bound -/

/-- What a search has seen, and what it has still to look at. -/
structure Search where
  seen : Finset Nat
  pending : List Nat

namespace Search

/-- One step of a search. It looks at any pending address; of what that address mentions, it may
leave out what it need not look at. -/
inductive Step (read : Nat → Except Error Descriptor) : Search → Search → Prop
  | skip {s : Search} {va : Nat} {rest : List Nat} (hpending : s.pending.Perm (va :: rest))
      (hskip : va = 0 ∨ va ∈ s.seen) : Step read s ⟨s.seen, rest⟩
  | visit {s : Search} {va : Nat} {rest next : List Nat} (hpending : s.pending.Perm (va :: rest))
      (hzero : va ≠ 0) (hnew : va ∉ s.seen) (hsub : ∀ u ∈ next, MentionsAt read va u)
      (hnext : ∀ u, MentionsAt read va u → u ∈ next ∨ u = 0 ∨ u ∈ insert va s.seen) :
      Step read s ⟨insert va s.seen, next ++ rest⟩

section Step

variable {read : Nat → Except Error Descriptor} {roots : List Nat} {s s' : Search}

/-- How many candidates have not been seen. -/
def unseen (candidates seen : Finset Nat) : Nat :=
  (candidates \ seen).card

theorem unseen_insert_le (candidates seen : Finset Nat) (va : Nat) :
    unseen candidates (insert va seen) ≤ unseen candidates seen := by
  apply Finset.card_le_card
  exact Finset.sdiff_subset_sdiff (Finset.Subset.refl candidates) (Finset.subset_insert va seen)

theorem unseen_insert_lt {candidates seen : Finset Nat} {va : Nat} (hva : va ∈ candidates)
    (hnew : va ∉ seen) : unseen candidates (insert va seen) < unseen candidates seen := by
  apply Finset.card_lt_card
  rw [Finset.sdiff_insert]
  exact Finset.erase_ssubset (Finset.mem_sdiff.mpr ⟨hva, hnew⟩)

/-- What holds at every point of a search: it only meets what the roots lead to, and has seen, or
has still to look at, all roots and all that is mentioned by what it has seen. -/
structure Invariant (read : Nat → Except Error Descriptor) (roots : List Nat) (s : Search) :
    Prop where
  seen : ∀ va ∈ s.seen, Reached read roots va
  pending : ∀ va ∈ s.pending, va ≠ 0 → Reached read roots va
  roots : ∀ va ∈ roots, va ≠ 0 → va ∈ s.seen ∨ va ∈ s.pending
  children : ∀ va ∈ s.seen, ∀ child, MentionsAt read va child → child ≠ 0 →
    child ∈ s.seen ∨ child ∈ s.pending

theorem Invariant.start (read : Nat → Except Error Descriptor) (roots : List Nat) :
    Invariant read roots ⟨∅, roots⟩ where
  seen := by simp
  pending := fun _ hva hzero => .root hva hzero
  roots := fun _ hva _ => .inr hva
  children := by simp

/-- Every step keeps the invariant. -/
theorem Invariant.step (h : Invariant read roots s) (hstep : Step read s s') :
    Invariant read roots s' := by
  cases hstep with
  | @skip va rest hpending hskip =>
      -- What is passed over is zero, or has been seen.
      have hmove : ∀ u, u ≠ 0 → u ∈ s.seen ∨ u ∈ s.pending → u ∈ s.seen ∨ u ∈ rest := by
        rintro u hu (hseen | hleft)
        · exact .inl hseen
        · rcases List.mem_cons.mp (hpending.mem_iff.mp hleft) with rfl | hrest
          · exact .inl (hskip.resolve_left hu)
          · exact .inr hrest
      refine ⟨h.seen, fun u hu => h.pending u ?_, fun u hu hzero => ?_,
        fun u hu child hchild hzero => ?_⟩
      · exact hpending.mem_iff.mpr (List.mem_cons_of_mem va hu)
      · exact hmove u hzero (h.roots u hu hzero)
      · exact hmove child hzero (h.children u hu child hchild hzero)
  | @visit va rest next hpending hzero hnew hsub hnext =>
      have hva : Reached read roots va :=
        h.pending va (hpending.mem_iff.mpr List.mem_cons_self) hzero
      -- What was pending has been seen now, or is pending still.
      have hmove : ∀ u, u ∈ s.seen ∨ u ∈ s.pending → u ∈ insert va s.seen ∨ u ∈ next ++ rest := by
        rintro u (hseen | hleft)
        · exact .inl (Finset.mem_insert_of_mem hseen)
        · rcases List.mem_cons.mp (hpending.mem_iff.mp hleft) with rfl | hrest
          · exact .inl (Finset.mem_insert_self u s.seen)
          · exact .inr (List.mem_append_right next hrest)
      refine ⟨fun u hu => ?_, fun u hu hu0 => ?_, fun u hu hu0 => hmove u (h.roots u hu hu0),
        fun u hu child hchild hchild0 => ?_⟩
      · rcases Finset.mem_insert.mp hu with rfl | hu
        · exact hva
        · exact h.seen u hu
      · rcases List.mem_append.mp hu with hu | hu
        · exact hva.child (hsub u hu) hu0
        · exact h.pending u (hpending.mem_iff.mpr (List.mem_cons_of_mem va hu)) hu0
      · rcases Finset.mem_insert.mp hu with rfl | hu
        · rcases hnext child hchild with hnext | hchild0' | hseen
          · exact .inr (List.mem_append_left rest hnext)
          · exact absurd hchild0' hchild0
          · exact .inl hseen
        · exact hmove child (h.children u hu child hchild hchild0)

theorem Invariant.run (h : Invariant read roots s)
    (hrun : Relation.ReflTransGen (Step read) s s') : Invariant read roots s' := by
  induction hrun with
  | refl => exact h
  | tail _ hstep ih => exact ih.step hstep

/-- A search that has nothing left to look at has seen exactly what the roots lead to. -/
theorem Invariant.mem_seen_iff (h : Invariant read roots s) (hend : s.pending = []) {va : Nat} :
    va ∈ s.seen ↔ Reached read roots va := by
  have hnone : ∀ u, u ∉ s.pending := by simp [hend]
  constructor
  · exact h.seen va
  · intro hva
    induction hva with
    | root hva hzero => exact (h.roots _ hva hzero).resolve_right (hnone _)
    | child _ hchild hzero ih =>
        exact (h.children _ ih _ hchild hzero).resolve_right (hnone _)

end Step

end Search

end GoImage
