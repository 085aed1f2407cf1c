import GoImage.Proofs.TypeInfo.Faults
import GoImage.Proofs.TypeInfo.Listing

/-! # What is remembered of descriptors

A descriptor that could be read stays where it is, and a failure stays what it was. An answer is
what reading gives, except that a failure which has been met before is named as the cause of the
answer, once. A declaration meets all that its text is put together from. -/

namespace GoImage

namespace Catalogue

variable {read : Nat → Except Error Descriptor} {c c' : Catalogue} {va w : Nat} {d : Descriptor}
  {e : Error}

/-! ## Answers -/

theorem Sound.notMem_failures (hc : Sound read c) (h : va ∈ c.index) : va ∉ c.failures := by
  intro hfailed
  obtain ⟨d, -, hread⟩ := hc.indexed (Std.HashMap.getElem?_eq_some_getElem h)
  rw [hc.failed (Std.HashMap.getElem?_eq_some_getElem hfailed)] at hread
  cases hread

theorem lookup_eq_ok_iff (hc : Sound read c) :
    ((lookup read va).run c).1 = .ok d ↔ read va = .ok d := by
  cases hread : read va with
  | ok d' => rw [lookup_run_ok hc hread]
  | error e =>
      obtain ⟨e', hrun⟩ := lookup_run_error hc hread
      rw [hrun]
      exact ⟨nofun, nofun⟩

/-! ## What a chain of references leads to -/

theorem exists_shortest {n u : Nat} (h : LeadsIn read n va u) :
    ∃ k ≤ n, LeadsIn read k va u ∧ ∀ j < k, ¬ LeadsIn read j va u := by
  classical
  have hexists : ∃ k, LeadsIn read k va u := ⟨n, h⟩
  exact ⟨Nat.find hexists, Nat.find_min' hexists h, Nat.find_spec hexists,
    fun j hj => Nat.find_min hexists hj⟩

/-- What leads to a type that can be read can be read itself. -/
theorem exists_read_of_leadsIn {n u : Nat} (h : LeadsIn read n va u) (hread : read u = .ok d) :
    ∃ d', read va = .ok d' := by
  cases n with
  | zero =>
      obtain rfl : va = u := h
      exact ⟨d, hread⟩
  | succ n =>
      obtain ⟨_, ⟨d', hva, -⟩, -⟩ := h
      exact ⟨d', hva⟩

/-- Whatever a remembered type leads to is remembered. -/
theorem Sound.mem_rendered_of_leadsIn (hc : Sound read c) {n u : Nat} (h : LeadsIn read n va u)
    (hva : va ∈ c.rendered) : u ∈ c.rendered := by
  induction n generalizing va with
  | zero => exact h ▸ hva
  | succ n ih =>
      obtain ⟨next, hnext, h⟩ := h
      exact ih h (hc.closed hva hnext)

section LeadsIn

variable {f : Nat → Cataloguing String} {vas : List Nat} {next : Nat}

/-- A run that writes a reference leaves what the reference does. -/
theorem related_asksNext (hf : PlainUnlessCut read f)
    (hnext : ∀ c, Sound read c → c.inProgress = vas → Met read ((f next).run c).2 w)
    (refs : List Nat) :
    Speller.Related
      (leavesNoted read (P := fun c => c.inProgress = vas)
        (fun h hstep => hstep.inProgress.trans h) fun c u => u = next → Met read c w)
      (fun _ _ => True) (shapeAt? read) refs (spelling read f) (noting (shapeAt? read)) := by
  constructor
  · intro va c l hc _
    have hstep := Step.remember hc va
    rw [show ((spelling read f).shape? va).run c = _ from lookupShape?_run hc va]
    exact ⟨⟨rfl, rfl⟩, hstep, fun hl u hu heq => (hl u hu heq).step hstep⟩
  · intro va _ c l hc hvas
    have hstep := (hf va c hc).1
    refine ⟨trivial, hstep, fun hl u hu heq => ?_⟩
    rcases List.mem_append.1 hu with hu | hu
    · exact (hl u hu heq).step hstep
    · obtain rfl := List.mem_singleton.1 hu
      subst heq
      exact hnext c hc hvas

variable (hf : PlainUnlessCut read f)
    (hnext : ∀ c, Sound read c → c.inProgress = vas → Met read ((f next).run c).2 w)
    (hmem : next ∈ d.shape.inlineReferences (shapeAt? read)) (hc : Sound read c)
    (hvas : c.inProgress = vas)
include hf hnext hmem hc hvas

theorem met_literal_of_reference : Met read (((spelling read f).literal d).run c).2 w := by
  obtain ⟨-, -, hmet⟩ := (related_asksNext hf hnext _).literal
    ⟨fun _ => trivial, fun _ _ => trivial⟩ c [] hc hvas
  rw [noting_literal] at hmet
  exact hmet (by simp) next hmem rfl

theorem met_definition_of_reference : Met read (((spelling read f).definition d).run c).2 w := by
  obtain ⟨-, -, hmet⟩ := (related_asksNext hf hnext _).definition
    ⟨fun _ => trivial, fun _ _ => trivial⟩ c [] hc hvas
  rw [noting_definition] at hmet
  exact hmet (by simp) next hmem rfl

end LeadsIn

/-- A reference asks for all that the type at the end of a chain is made of, if there is room for
the chain and no type that is being written is nearer to that end. -/
theorem met_reference_of_leadsIn {n room u : Nat} (hc : Sound read c) (hva : Unnamed read va)
    (h : LeadsIn read n va u) (hroom : n < room) (hread : read u = .ok d)
    (hfar : ∀ v ∈ c.inProgress, ∀ k ≤ n, ¬ LeadsIn read k v u) (hw : w ∈ visited read d) :
    Met read ((reference read room va).run c).2 w := by
  induction room generalizing n va c with
  | zero => exact absurd hroom (Nat.not_lt_zero n)
  | succ room ih =>
      by_cases hrendered : va ∈ c.rendered
      · have hu := hc.mem_rendered_of_leadsIn h hrendered
        exact (hc.asked hu hread hw).step (reference_plainUnlessCut read _ va c hc).1
      -- Along a shortest chain no type comes back, so that each one is written.
      obtain ⟨k, hk, hchain, hshortest⟩ := exists_shortest h
      have hprogress : va ∉ c.inProgress := fun hmem => hfar va hmem n (Nat.le_refl n) h
      obtain ⟨d', hread', hd'⟩ := hva
      have hsound := (hc.remember va).writing (va :: (c.remember read va).inProgress)
      have hplain := reference_plainUnlessCut read room
      rw [reference_of_written hc hread' hd' hrendered hprogress]
      refine Met.settle ?_ _ _ _
      cases k with
      | zero =>
          obtain rfl : va = u := hchain
          obtain rfl : d = d' := Except.ok.inj (hread.symm.trans hread')
          exact met_literal hplain (reference_looksUp read room) hsound hw
      | succ k =>
          obtain ⟨next, hnext, hrest⟩ := hchain
          obtain ⟨d'', hread'', hmem, hunnamed⟩ := hnext
          obtain rfl : d' = d'' := Except.ok.inj (hread'.symm.trans hread'')
          refine met_literal_of_reference hplain (fun c' hc' hwriting => ?_) hmem hsound rfl
          refine ih hc' hunnamed hrest (by omega) fun v hv j hj => ?_
          rw [hwriting, (hc.sameTexts_remember va).inProgress] at hv
          rcases List.mem_cons.1 hv with rfl | hv
          · exact hshortest j (by omega)
          · exact hfar v hv j (by omega)

/-! ## Declarations -/

/-- A run in which the descriptor at an address is asked for, if no type is being written. -/
def Asks {α : Type} (read : Nat → Except Error Descriptor) (x : Cataloguing α) (va : Nat) : Prop :=
  ∀ c, Sound read c → c.inProgress = [] → Met read (x.run c).2 va

theorem asks_lookup (read : Nat → Except Error Descriptor) (va : Nat) :
    Asks read (lookup read va) va :=
  fun _ hc _ => hc.met_remember va

theorem asks_declaration (read : Nat → Except Error Descriptor) (va : Nat) :
    Asks read (declaration read va) va := by
  intro c hc _
  cases hread : read va with
  | ok d => exact .of_ok hread
  | error e =>
      rw [declaration_of_error hc hread]
      exact hc.met_remember va

/-- A declaration asks for all that the type at the end of a chain within the depth limit is made
of. -/
theorem asks_declaration_of_leadsIn {n u : Nat} (h : LeadsIn read n va u) (hn : n < maxDepth)
    (hread : read u = .ok d) (hw : w ∈ visited read d) : Asks read (declaration read va) w := by
  intro c hc hprogress
  have hsame := hc.sameTexts_remember va
  obtain ⟨d', hva⟩ := exists_read_of_leadsIn h hread
  cases hd' : d'.isNamed with
  | false =>
      rw [declaration_of_unnamed hc hva hd']
      refine met_reference_of_leadsIn (hc.remember va) ⟨d', hva, hd'⟩ h hn hread (fun v hv => ?_) hw
      rw [hsame.inProgress, hprogress] at hv
      exact absurd hv List.not_mem_nil
  | true =>
      obtain ⟨k, hk, hchain, hshortest⟩ := exists_shortest h
      have hsound := (hc.remember va).writing (va :: (c.remember read va).inProgress)
      have hplain := reference_plainUnlessCut read (maxDepth - 1)
      rw [declaration_of_named hc hva hd']
      cases k with
      | zero =>
          obtain rfl : va = u := hchain
          obtain rfl : d = d' := Except.ok.inj (hread.symm.trans hva)
          exact met_definition hplain (reference_looksUp read _) hsound hw
      | succ k =>
          obtain ⟨next, ⟨d'', hva', hmem, hunnamed⟩, hrest⟩ := hchain
          obtain rfl : d' = d'' := Except.ok.inj (hva.symm.trans hva')
          refine met_definition_of_reference hplain (fun c' hc' hwriting => ?_) hmem hsound rfl
          refine met_reference_of_leadsIn hc' hunnamed hrest (by omega) hread (fun v hv j hj => ?_)
            hw
          rw [hwriting, hsame.inProgress, hprogress] at hv
          obtain rfl := List.mem_singleton.1 hv
          exact hshortest j (by omega)

theorem Asks.entries {vas : List Nat} (hva : va ∈ vas) (h : Asks read (declaration read va) w) :
    Asks read (entries read vas) w := by
  induction vas with
  | nil => exact absurd hva List.not_mem_nil
  | cons u vas ih =>
      intro c hc hprogress
      have hstep := (declaration_plainUnlessCut hc u).1
      have hrest := Keeps.entries vas _ hstep.sound
      unfold Catalogue.entries at ih hrest ⊢
      rw [List.mapM_cons]
      rcases List.mem_cons.1 hva with rfl | hva
      · exact (h c hc hprogress).step hrest
      · exact ih hva _ hstep.sound (hstep.inProgress.trans hprogress)

end Catalogue

/-! ## Operations -/

namespace TypeReader

open Catalogue

variable {r : TypeReader} {typelinks : Except Error (List Nat)}
  {itabs : Except Error (List (Nat × Nat))} {va w : Nat}

/-- A listing leaves behind what the declarations of its interfaces do, after those of its types. -/
theorem listing_run_state (c : Catalogue) :
    let found := (r.reachable (roots typelinks itabs)).run c
    let types := (Catalogue.entries r.read found.1).run found.2
    ((r.listing typelinks itabs).run c).2 =
      ((Catalogue.entries r.read (interfaces itabs)).run types.2).2 := by
  cases typelinks <;> cases itabs <;> rfl

/-- What the declaration of a listed type asks for, the listing does. -/
theorem asks_listing (hva : Reached r.read (roots typelinks itabs) va ∨ va ∈ interfaces itabs)
    (h : Asks r.read (Catalogue.declaration r.read va) w) :
    Asks r.read (r.listing typelinks itabs) w := by
  intro c hc hprogress
  have hfound := Keeps.reachable r (roots typelinks itabs) c hc
  have htypes := Keeps.entries ((r.reachable (roots typelinks itabs)).run c).1 _ hfound.sound
  have hinterfaces := Keeps.entries (interfaces itabs) _ htypes.sound
  rw [listing_run_state]
  rcases hva with hva | hva
  · have hmem := ((r.reachable_spec (roots typelinks itabs) hc).2 va).2 hva
    exact (h.entries hmem _ hfound.sound (hfound.inProgress.trans hprogress)).step hinterfaces
  · exact h.entries hva _ htypes.sound
      ((hfound.trans htypes).inProgress.trans hprogress)

end TypeReader

namespace Catalogue

/-- The types that an operation declares: the one that it is asked about, or all that it lists. -/
inductive Operation.Declares (r : TypeReader) (m : ModuleData) : Operation → Nat → Prop
  | declaration (va : Nat) : Declares r m (.declaration va) va
  | manual (va : Nat) : Declares r m (.manual va) va
  | type {va : Nat} (h : Reached r.read (TypeReader.roots (r.typelinks m) (r.itabs m)) va) :
    Declares r m .enumerate va
  | interface {va : Nat} (h : va ∈ TypeReader.interfaces (r.itabs m)) :
    Declares r m .enumerate va

/-- Addresses at which an operation asks for descriptors, whatever was asked before it: its own,
those of the types that it declares, and all that a type is made of which a declared one leads to
within the depth limit. -/
inductive Operation.Meets (r : TypeReader) (m : ModuleData) : Operation → Nat → Prop
  | descriptor (va : Nat) : Meets r m (.descriptor va) va
  | declared {operation : Operation} {va : Nat} (h : operation.Declares r m va) :
    Meets r m operation va
  | part {operation : Operation} {va n u w : Nat} {d : Descriptor} (h : operation.Declares r m va)
    (hchain : LeadsIn r.read n va u) (hn : n < maxDepth) (hread : r.read u = .ok d)
    (hw : w ∈ visited r.read d) : Meets r m operation w

section After

variable {r : TypeReader} {m : ModuleData} {operation : Operation} {va w : Nat}

theorem Operation.Declares.asks (hdeclares : operation.Declares r m va)
    (h : Asks r.read (Catalogue.declaration r.read va) w) : Asks r.read (operation.ask r m) w := by
  cases hdeclares with
  | declaration => exact h
  | manual =>
      have hentries := h.entries (List.mem_singleton_self va)
      exact hentries
  | type hva => exact TypeReader.asks_listing (.inl hva) h
  | interface hva => exact TypeReader.asks_listing (.inr hva) h

theorem Operation.Meets.asks (h : operation.Meets r m va) : Asks r.read (operation.ask r m) va := by
  cases h with
  | descriptor => exact asks_lookup r.read va
  | declared hdeclares => exact hdeclares.asks (asks_declaration r.read va)
  | part hdeclares hchain hn hread hw =>
      exact hdeclares.asks (asks_declaration_of_leadsIn hchain hn hread hw)

theorem Operation.Meets.met_after {history : List Operation} (h : operation.Meets r m va)
    (hmem : operation ∈ history) : Met r.read (after r m history) va := by
  obtain ⟨before, later, rfl⟩ := List.append_of_mem hmem
  have hsound := sound_after r m before
  rw [after, afterAll_append]
  exact (h.asks _ hsound (inProgress_after r m before)).step
    (afterAll_step r m later (operation.keeps r m _ hsound).sound)

/-- Whatever was asked, and in whatever order: no address is noted both as readable and as failed,
what is noted is what reading gives, and it is never changed or removed. So a descriptor is answered
exactly if it can be read. An address where reading fails is answered with the failure of reading as
long as none is noted for it, and from then on with one that names that failure as its cause; the
failure of reading has a cause of its own that is not about descriptors, so that failures are nested
just once. It is noted as soon as an operation has asked for the descriptor, for a declaration of
its type, or for one that this type is part of at any depth up to the limit. -/
theorem memo_after (r : TypeReader) (m : ModuleData) (history : List Operation) :
    let c := after r m history
    (∀ va, va ∈ c.index → va ∉ c.failures) ∧
    (∀ va i, c.index[va]? = some i → ∃ d, c.arena[i]? = some d ∧ r.read va = .ok d) ∧
    (∀ va e, c.failures[va]? = some e → r.read va = .error e) ∧
    (∀ later, Grows c (after r m (history ++ later))) ∧
    (∀ va d, ((lookup r.read va).run c).1 = .ok d ↔ r.read va = .ok d) ∧
    (∀ va e, r.read va = .error e →
      (∃ cause : Error, e = .descriptor va cause ∧ cause.IsReadFault) ∧
      (va ∉ c.failures → ((lookup r.read va).run c).1 = .error e) ∧
      (va ∈ c.failures → ((lookup r.read va).run c).1 = .error (.descriptor va e))) ∧
    ∀ operation ∈ history, ∀ va e, operation.Meets r m va → r.read va = .error e →
      va ∈ c.failures := by
  intro c
  have hc : Sound r.read c := sound_after r m history
  refine ⟨fun va => hc.notMem_failures, fun va i => hc.indexed, fun va e => hc.failed,
    fun later => ?_, fun va d => lookup_eq_ok_iff hc, fun va e he => ⟨?_, fun hva => ?_,
    fun hva => ?_⟩, fun operation hmem va e hmeets he => ?_⟩
  · rw [after, afterAll_append]
    exact (afterAll_step r m later hc).grows
  · exact TypeReader.exists_cause_of_read he
  · rw [lookup_of_notMem hc he hva]
  · rw [lookup_of_mem hc he hva]
  · rw [Std.HashMap.mem_iff_isSome_getElem?, hmeets.met_after hmem e he]
    rfl

end After

end Catalogue
end GoImage
