import GoImage.Proofs.TypeInfo.History
import GoImage.Proofs.TypeInfo.Nesting
import Mathlib.Data.List.Chain

/-! # References that are cut short

A reference is cut at a type inside of whose text it stands. Every type on a short cycle of
references comes back to itself in its own text, whatever is remembered: a type on a cycle has no
plain text, so it is never taken from the texts that are remembered. -/

namespace GoImage

/-- References lead from a type through the others, none of them twice, and back. -/
structure OnSimpleCycle (read : Nat → Except Error Descriptor) (va : Nat) (others : List Nat) :
    Prop where
  nodup : (va :: others).Nodup
  refers : List.IsChain (Refers read) (va :: (others ++ [va]))

theorem transGen_of_isChain {α : Type} {r : α → α → Prop} {a b : α} {l : List α}
    (h : List.IsChain r (a :: (l ++ [b]))) : Relation.TransGen r a b := by
  induction l generalizing a with
  | nil => exact .single (List.isChain_pair.1 h)
  | cons next l ih =>
      obtain ⟨hnext, hrest⟩ := List.isChain_cons_cons.1 h
      exact .head hnext (ih hrest)

theorem OnSimpleCycle.unnamed {read : Nat → Except Error Descriptor} {va : Nat}
    {others : List Nat} (h : OnSimpleCycle read va others) : Unnamed read va := by
  obtain ⟨_, -, _, -, -, hva⟩ := Relation.TransGen.tail'_iff.1 (transGen_of_isChain h.refers)
  exact hva

namespace Catalogue

variable {read : Nat → Except Error Descriptor} {c : Catalogue}

section Declaration

variable {va : Nat} {path : List Nat} (hc : Sound read c) (hprogress : c.inProgress = [])
include hc hprogress

end Declaration

end Catalogue
end GoImage
