import GoImage.Proofs.Image.Content
import GoImage.Proofs.TypeInfo.History
import GoImage.Proofs.TypeInfo.Search
import Mathlib.Data.Finset.Dedup

/-! # Which types are found

From its roots a search finds exactly the types that they lead to. It cannot run out of room: a type
that can be read has an address in the file, and the search has room for all of these. -/

namespace GoImage

namespace Catalogue

/-! ## The room of a search -/

theorem mem_insert {seen : Std.TreeSet Nat} {va w : Nat} :
    w ∈ seen.insert va ↔ w = va ∨ w ∈ seen := by
  rw [Std.TreeSet.mem_insert, Nat.compare_eq_eq, eq_comm]

theorem pairwise_toList (seen : Std.TreeSet Nat) : seen.toList.Pairwise (· < ·) :=
  Std.TreeSet.ordered_toList.imp fun h => Nat.compare_eq_lt.1 h

/-- The addresses that have been seen. -/
def addresses (seen : Std.TreeSet Nat) : Finset Nat :=
  seen.toList.toFinset

theorem mem_addresses {seen : Std.TreeSet Nat} {va : Nat} : va ∈ addresses seen ↔ va ∈ seen := by
  rw [addresses, List.mem_toFinset, Std.TreeSet.mem_toList]

theorem addresses_empty : addresses {} = ∅ := by
  ext va
  rw [mem_addresses]
  simp

theorem addresses_insert (seen : Std.TreeSet Nat) (va : Nat) :
    addresses (seen.insert va) = insert va (addresses seen) := by
  ext w
  rw [Finset.mem_insert, mem_addresses, mem_addresses, mem_insert]

/-- With room for all types that can be read, a search goes on to its end. -/
theorem run_discover {read : Nat → Except Error Descriptor} {candidates : Finset Nat}
    (hcandidates : ∀ va d, read va = .ok d → va ∈ candidates) (room : Nat)
    (seen : Std.TreeSet Nat) (pending : List Nat) {c : Catalogue} (hc : Sound read c)
    (hroom : Search.unseen candidates (addresses seen) ≤ room) :
    Relation.ReflTransGen (Search.Step read) { seen := addresses seen, pending }
      { seen := addresses ((discover read room seen pending).run c).1, pending := [] } := by
  induction room, seen, pending using discover.induct generalizing c with
  | case1 room seen =>
      rw [discover]
      exact .refl
  | case2 room seen va rest hskip ih =>
      rw [discover, if_pos hskip]
      have hva : va = 0 ∨ va ∈ addresses seen := by
        simpa [Std.TreeSet.contains_iff_mem, mem_addresses] using hskip
      exact (ih hc hroom).head (.skip (List.Perm.refl _) hva)
  | case3 room seen va rest hskip ih ihs =>
      obtain ⟨hzero, hnew⟩ : va ≠ 0 ∧ va ∉ addresses seen := by
        simpa [Std.TreeSet.contains_iff_mem, mem_addresses] using hskip
      have hvisit : ∀ next : List Nat, (∀ u, u ∈ next ↔ MentionsAt read va u) →
          Search.Step read { seen := addresses seen, pending := va :: rest }
            { seen := addresses (seen.insert va), pending := next ++ rest } := by
        intro next hnext
        rw [addresses_insert]
        exact .visit (List.Perm.refl _) hzero hnew (fun u => (hnext u).mp)
          fun u hu => .inl ((hnext u).mpr hu)
      rw [discover, if_neg hskip, StateT.run_bind]
      cases hread : read va with
      | error e =>
          obtain ⟨e', hrun⟩ := lookup_run_error hc hread
          have hle := Search.unseen_insert_le candidates (addresses seen) va
          rw [← addresses_insert] at hle
          rw [hrun]
          exact (ih (hc.remember va) (Nat.le_trans hle hroom)).head
            (hvisit [] fun u => iff_of_false List.not_mem_nil (not_mentionsAt hread u))
      | ok d =>
          -- A new type that can be read is one candidate less, so that there is room for it.
          have hlt := Search.unseen_insert_lt (hcandidates va d hread) hnew
          rw [← addresses_insert] at hlt
          rw [lookup_run_ok hc hread]
          cases room with
          | zero => exact absurd hlt (by omega)
          | succ room =>
              exact (ihs d (hc.remember va) (by omega)).head
                (hvisit d.shape.children fun u => (mentionsAt_iff hread).symm)

theorem SameTexts.trans {c c' c'' : Catalogue} (h₁ : SameTexts c c') (h₂ : SameTexts c' c'') :
    SameTexts c c'' :=
  ⟨h₂.rendered.trans h₁.rendered, h₂.inProgress.trans h₁.inProgress,
    h₂.backReferences.trans h₁.backReferences⟩

/-- A search touches no text. -/
theorem sameTexts_discover {read : Nat → Except Error Descriptor} (room : Nat)
    (seen : Std.TreeSet Nat) (pending : List Nat) {c : Catalogue} (hc : Sound read c) :
    SameTexts c ((discover read room seen pending).run c).2 := by
  induction room, seen, pending using discover.induct generalizing c with
  | case1 room seen =>
      rw [discover]
      exact ⟨rfl, rfl, rfl⟩
  | case2 room seen va rest hskip ih =>
      rw [discover, if_pos hskip]
      exact ih hc
  | case3 room seen va rest hskip ih ihs =>
      have hsame := hc.sameTexts_remember va
      rw [discover, if_neg hskip, StateT.run_bind]
      cases hread : read va with
      | error e =>
          obtain ⟨e', hrun⟩ := lookup_run_error hc hread
          rw [hrun]
          exact hsame.trans (ih (hc.remember va))
      | ok d =>
          rw [lookup_run_ok hc hread]
          cases room with
          | zero => exact hsame
          | succ room => exact hsame.trans (ihs d (hc.remember va))

end Catalogue

/-! ## All types that roots lead to -/

namespace TypeReader

/-- The addresses with content in the file. -/
def fileAddresses (r : TypeReader) : List Nat :=
  r.image.sections.flatMap fun s => List.range' s.address s.fileSize

theorem length_fileAddresses (r : TypeReader) : r.fileAddresses.length = r.discoveryRoom := by
  unfold fileAddresses discoveryRoom
  induction r.image.sections with
  | nil => rfl
  | cons s sections ih =>
      rw [List.flatMap_cons, List.length_append, List.length_range', ih]
      rfl

/-- A type that can be read lies in the file. -/
theorem mem_fileAddresses {r : TypeReader} {va : Nat} {d : Descriptor} (h : r.read va = .ok d) :
    va ∈ r.fileAddresses := by
  unfold TypeReader.read Image.decodeAt at h
  cases hbytes : r.image.bytesFrom va with
  | error e =>
      rw [hbytes] at h
      cases h
  | ok bytes =>
      obtain ⟨s, _, hs, -⟩ := Image.exists_of_bytesFrom hbytes
      obtain ⟨hmem, hholds⟩ := Image.holds_of_sectionHolding? hs
      rw [Section.holds_iff] at hholds
      exact List.mem_flatMap.2 ⟨s, hmem, List.mem_range'_1.2 hholds⟩

section Reachable

variable (r : TypeReader) (roots : List Nat) {c : Catalogue}

open Catalogue

/-- What is found is what a search without a bound has seen at its end. -/
theorem run_reachable (hc : Sound r.read c) :
    Relation.ReflTransGen (Search.Step r.read) { seen := ∅, pending := roots }
      { seen := ((r.reachable roots).run c).1.toFinset, pending := [] } := by
  have hroom : Search.unseen r.fileAddresses.toFinset (addresses {}) ≤ r.discoveryRoom := by
    rw [Search.unseen, addresses_empty, Finset.sdiff_empty, ← length_fileAddresses]
    exact List.toFinset_card_le r.fileAddresses
  have hrun := run_discover (fun _ _ h => List.mem_toFinset.mpr (mem_fileAddresses h))
    r.discoveryRoom {} roots hc hroom
  rw [addresses_empty] at hrun
  exact hrun

/-- The types that roots lead to are listed by ascending address, each of them once. -/
theorem reachable_spec (hc : Sound r.read c) :
    let vas := ((r.reachable roots).run c).1
    vas.Pairwise (· < ·) ∧ ∀ va, va ∈ vas ↔ Reached r.read roots va := by
  intro vas
  have hinvariant := (Search.Invariant.start r.read roots).run (run_reachable r roots hc)
  refine ⟨pairwise_toList _, fun va => ?_⟩
  rw [← hinvariant.mem_seen_iff rfl, List.mem_toFinset]

end Reachable

end TypeReader
end GoImage
