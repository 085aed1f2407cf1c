import GoImage.Proofs.TypeInfo.CutFree
import GoImage.TypeInfo.Enumeration

/-! # Histories of a catalogue

Whatever is asked of a catalogue, in whatever order and how often, it stays sound. -/

namespace GoImage.Catalogue

/-! ## Operations -/

/-- What can be asked of a catalogue. -/
inductive Operation
  | declaration (va : Nat)
  | descriptor (va : Nat)
  | manual (va : Nat)
  | enumerate
deriving Repr, DecidableEq

/-- Asks and pays no attention to the answer. -/
def Operation.ask (r : TypeReader) (m : ModuleData) : Operation → Cataloguing Unit
  | .declaration va => discard (Catalogue.declaration r.read va)
  | .descriptor va => discard (lookup r.read va)
  | .manual va => discard (Catalogue.manual r.read va)
  | .enumerate => discard (r.enumerate m)

/-- The catalogue after further operations. -/
def afterAll (r : TypeReader) (m : ModuleData) (c : Catalogue) (history : List Operation) :
    Catalogue :=
  history.foldl (fun c operation => ((operation.ask r m).run c).2) c

/-- The catalogue after a history of operations, empty at first. -/
def after (r : TypeReader) (m : ModuleData) (history : List Operation) : Catalogue :=
  afterAll r m {} history

/-! ## Every operation is a step -/

/-- A run that keeps a catalogue sound, forgets no text, and finishes all that it begins. -/
def Keeps {α : Type} (read : Nat → Except Error Descriptor) (x : Cataloguing α) : Prop :=
  ∀ c, Sound read c → Step read c (x.run c).2

section Keeps

variable {read : Nat → Except Error Descriptor} {α β : Type}

theorem Keeps.pure (a : α) : Keeps read (Pure.pure a : Cataloguing α) :=
  fun _ hc => .refl hc

theorem Keeps.bind {x : Cataloguing α} {f : α → Cataloguing β} (hx : Keeps read x)
    (hf : ∀ a, Keeps read (f a)) : Keeps read (x >>= f) := by
  intro c hc
  have hstep := hx c hc
  exact hstep.trans (hf _ _ hstep.sound)

theorem Keeps.mapM {f : α → Cataloguing β} (hf : ∀ a, Keeps read (f a)) (as : List α) :
    Keeps read (as.mapM f) := by
  induction as with
  | nil =>
      rw [List.mapM_nil]
      exact Keeps.pure []
  | cons a as ih =>
      rw [List.mapM_cons]
      exact (hf a).bind fun _ => ih.bind fun _ => Keeps.pure _

theorem Keeps.lookup (va : Nat) : Keeps read (lookup read va) := fun _ hc =>
  .remember hc va

theorem Keeps.declaration (va : Nat) : Keeps read (declaration read va) := fun _ hc =>
  (declaration_plainUnlessCut hc va).1

theorem Keeps.entries (vas : List Nat) : Keeps read (entries read vas) :=
  Keeps.mapM (fun va => (Keeps.declaration va).bind fun _ => .pure _) vas

theorem Keeps.discover (room : Nat) (seen : Std.TreeSet Nat) (pending : List Nat) :
    Keeps read (discover read room seen pending) := by
  induction room, seen, pending using discover.induct with
  | case1 room seen =>
      rw [Catalogue.discover]
      exact .pure seen
  | case2 room seen va rest hseen ih =>
      rw [Catalogue.discover]
      rw [if_pos hseen]
      exact ih
  | case3 room seen va rest hseen ih ihs =>
      rw [Catalogue.discover]
      rw [if_neg hseen]
      refine (Keeps.lookup va).bind fun a => ?_
      cases a with
      | error e => exact ih
      | ok d =>
          cases room with
          | zero => exact .pure _
          | succ room => exact ihs d

theorem Keeps.reachable (r : TypeReader) (roots : List Nat) : Keeps r.read (r.reachable roots) :=
  (Keeps.discover _ _ _).bind fun _ => .pure _

theorem Keeps.enumerate (r : TypeReader) (m : ModuleData) : Keeps r.read (r.enumerate m) :=
  (Keeps.reachable r _).bind fun vas => (Keeps.entries vas).bind fun _ =>
    (Keeps.entries _).bind fun _ => .pure _

theorem Operation.keeps (r : TypeReader) (m : ModuleData) (operation : Operation) :
    Keeps r.read (operation.ask r m) := by
  cases operation with
  | declaration va => exact (Keeps.declaration va).bind fun _ => .pure _
  | descriptor va => exact (Keeps.lookup va).bind fun _ => .pure _
  | manual va => exact (Keeps.entries [va]).bind fun _ => .pure _
  | enumerate => exact (Keeps.enumerate r m).bind fun _ => .pure _

end Keeps

/-! ## Reachable catalogues -/

section After

variable (r : TypeReader) (m : ModuleData)

theorem afterAll_append (c : Catalogue) (history history' : List Operation) :
    afterAll r m c (history ++ history') = afterAll r m (afterAll r m c history) history' :=
  List.foldl_append

theorem afterAll_step (history : List Operation) {c : Catalogue} (hc : Sound r.read c) :
    Step r.read c (afterAll r m c history) := by
  induction history generalizing c with
  | nil => exact .refl hc
  | cons operation history ih =>
      have hstep := operation.keeps r m c hc
      exact hstep.trans (ih hstep.sound)

theorem sound_after (history : List Operation) : Sound r.read (after r m history) :=
  (afterAll_step r m history (.empty r.read)).sound

theorem inProgress_after (history : List Operation) : (after r m history).inProgress = [] :=
  (afterAll_step r m history (.empty r.read)).inProgress

/-- Whatever was asked before, all remembered texts are the plain texts of types without a name
and without a cycle below them, and a type from which all chains of references are shorter than
the depth limit is declared in full. -/
theorem rendered_plain_after (history : List Operation) :
    (∀ va text, (after r m history).rendered[va]? = some text →
      Unnamed r.read va ∧ Acyclic r.read va ∧ plainReference r.read va = some text) ∧
    ∀ va, ChainsBelow r.read maxDepth va →
      plainDeclaration r.read va =
        some ((declaration r.read va).run (after r m history)).1 := by
  have hsound := sound_after r m history
  constructor
  · intro va text htext
    obtain ⟨hunnamed, hplain⟩ := hsound.rendered htext
    exact ⟨hunnamed, acyclic_of_plainReference hunnamed hplain, hplain⟩
  · intro va hchains
    have hquiet := declaration_quiet_of_chainsBelow hsound (inProgress_after r m history) hchains
    exact (declaration_plainUnlessCut hsound va).2 hquiet

end After

end GoImage.Catalogue
