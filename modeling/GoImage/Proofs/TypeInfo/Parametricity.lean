import GoImage.TypeInfo.Spelling
import Mathlib.Data.List.Forall2

/-! # Spelling looks at nothing but references

A literal is put together from the texts of its inline references. Two spellings whose references
are related therefore have related literals, whatever the two monads do besides. -/

namespace GoImage

/-! ## Inline references -/

/-- What the last parameter of a variadic function refers to: the elements of a slice. -/
def variadicReference (shape? : Nat → Option Shape) (param : Nat) : Nat :=
  match shape? param with
  | some (.slice elem) => elem
  | _ => param

def paramReferences (shape? : Nat → Option Shape) (variadic : Bool) : List Nat → List Nat
  | [] => []
  | [last] => [if variadic then variadicReference shape? last else last]
  | param :: rest => param :: paramReferences shape? variadic rest

def signatureReferences (shape? : Nat → Option Shape) (params results : List Nat)
    (variadic : Bool) : List Nat :=
  paramReferences shape? variadic params ++ results

/-- A method contributes the parameters and results of its function type, not that type. -/
def methodReferences (shape? : Nat → Option Shape) (method : Method) : List Nat :=
  match method.type.bind shape? with
  | some (.func params results variadic) => signatureReferences shape? params results variadic
  | _ => []

/-- The addresses that spelling a shape passes to `reference`, in order. -/
def Shape.inlineReferences (shape? : Nat → Option Shape) : Shape → List Nat
  | .basic => []
  | .array elem _ | .chan elem _ | .pointer elem | .slice elem => [elem]
  | .func params results variadic => signatureReferences shape? params results variadic
  | .interface methods => methods.flatMap (methodReferences shape?)
  | .map key elem => [key, elem]
  | .struct fields => fields.map (·.type)

/-! ## Relations between texts -/

/-- A relation between texts that putting texts together keeps. -/
structure TextRel (T : String → String → Prop) : Prop where
  refl : ∀ s, T s s
  append : ∀ {a b c d}, T a b → T c d → T (a ++ c) (b ++ d)

theorem TextRel.eq : TextRel (· = ·) :=
  ⟨fun _ => rfl, fun h₁ h₂ => by rw [h₁, h₂]⟩

namespace TextRel

variable {T : String → String → Prop} (hT : TextRel T)
include hT

theorem append_left (s : String) {a b : String} (h : T a b) : T (s ++ a) (s ++ b) :=
  hT.append (hT.refl s) h

theorem append_right {a b : String} (h : T a b) (s : String) : T (a ++ s) (b ++ s) :=
  hT.append h (hT.refl s)

theorem intercalate (separator : String) {texts texts' : List String}
    (h : List.Forall₂ T texts texts') :
    T (String.intercalate separator texts) (String.intercalate separator texts') := by
  induction h with
  | nil => exact hT.refl _
  | @cons a b xs ys hx hxs ih =>
      cases hxs with
      | nil => simpa using hx
      | cons hy hys =>
          rw [String.intercalate_cons_cons, String.intercalate_cons_cons]
          exact hT.append (hT.append_right hx separator) ih

theorem join {texts texts' : List String} (h : List.Forall₂ T texts texts') :
    T (String.join texts) (String.join texts') := by
  induction h with
  | nil => exact hT.refl _
  | cons hx _ ih =>
      rw [String.join_cons, String.join_cons]
      exact hT.append hx ih

theorem inlineMembers (keyword : String) {members members' : List String}
    (h : List.Forall₂ T members members') :
    T (GoImage.inlineMembers keyword members) (GoImage.inlineMembers keyword members') := by
  cases h with
  | nil => exact hT.refl _
  | cons hx hxs =>
      have hall := hT.intercalate "; " (.cons hx hxs)
      exact hT.append_right (hT.append_left _ hall) _

theorem blockMembers (keyword : String) {members members' : List String}
    (h : List.Forall₂ T members members') :
    T (GoImage.blockMembers keyword members) (GoImage.blockMembers keyword members') := by
  cases h with
  | nil => exact hT.refl _
  | cons hx hxs =>
      have hline : ∀ {a b : String}, T a b → T ("    " ++ a ++ "\n") ("    " ++ b ++ "\n") :=
        fun hab => hT.append_right (hT.append_left _ hab) _
      have hall := hT.join (List.rel_map (fun a b (hab : T a b) => hline hab) (.cons hx hxs))
      exact hT.append_right (hT.append_left _ hall) _

theorem signatureText {params params' results results' : List String}
    (hparams : List.Forall₂ T params params') (hresults : List.Forall₂ T results results') :
    T (GoImage.signatureText params results) (GoImage.signatureText params' results') := by
  have hbrackets := hT.append_right (hT.append_left "(" (hT.intercalate ", " hparams)) ")"
  cases hresults with
  | nil => exact hbrackets
  | cons hresult hrest =>
      cases hrest with
      | nil => exact hT.append (hT.append_right hbrackets " ") hresult
      | cons hnext hrest =>
          have hall := hT.intercalate ", " (.cons hresult (.cons hnext hrest))
          exact hT.append_right (hT.append (hT.append_right hbrackets " (") hall) ")"

theorem fieldText (f : Field) {type type' : String} (h : T type type') :
    T (GoImage.fieldText f type) (GoImage.fieldText f type') := by
  have hline : T (if f.embedded || f.name.isEmpty then type else f.name ++ " " ++ type)
      (if f.embedded || f.name.isEmpty then type' else f.name ++ " " ++ type') := by
    split
    · exact h
    · exact hT.append_left _ h
  unfold GoImage.fieldText
  cases f.tag with
  | none => exact hline
  | some tag =>
      dsimp only
      split
      · exact hline
      · exact hT.append_right (hT.append_right (hT.append_right hline _) _) _

end TextRel

/-! ## Relations between runs -/

/-- A relation between runs in two monads, for every relation between their results. -/
structure RunRel (m n : Type → Type) [Monad m] [Monad n] where
  rel : {α β : Type} → (α → β → Prop) → m α → n β → Prop
  pure : ∀ {α β : Type} {R : α → β → Prop} {a : α} {b : β}, R a b → rel R (pure a) (pure b)
  bind : ∀ {α β γ δ : Type} {R : α → β → Prop} {S : γ → δ → Prop} {x : m α} {y : n β}
    {f : α → m γ} {g : β → n δ},
    rel R x y → (∀ a b, R a b → rel S (f a) (g b)) → rel S (x >>= f) (y >>= g)

namespace RunRel

variable {m n : Type → Type} [Monad m] [Monad n] (L : RunRel m n)

theorem mapM [LawfulMonad m] [LawfulMonad n] {α β γ : Type} {R : β → γ → Prop} {f : α → m β}
    {g : α → n γ} {l : List α} (h : ∀ a ∈ l, L.rel R (f a) (g a)) :
    L.rel (List.Forall₂ R) (l.mapM f) (l.mapM g) := by
  induction l with
  | nil =>
      rw [List.mapM_nil, List.mapM_nil]
      exact L.pure .nil
  | cons a l ih =>
      rw [List.mapM_cons, List.mapM_cons]
      have hrest := ih fun x hx => h x (List.mem_cons_of_mem a hx)
      exact L.bind (h a List.mem_cons_self) fun _ _ hb =>
        L.bind hrest fun _ _ hbs => L.pure (.cons hb hbs)

end RunRel

/-- Two spellings that agree on shapes, and whose references are related at the addresses of a
list. -/
structure Speller.Related {m n : Type → Type} [Monad m] [Monad n] (L : RunRel m n)
    (T : String → String → Prop) (shape? : Nat → Option Shape) (vas : List Nat)
    (s : Speller m) (t : Speller n) : Prop where
  shape : ∀ va, L.rel (fun a b => a = shape? va ∧ b = shape? va) (s.shape? va) (t.shape? va)
  reference : ∀ va ∈ vas, L.rel T (s.reference va) (t.reference va)

namespace Speller.Related

variable {m n : Type → Type} [Monad m] [Monad n] {L : RunRel m n}
variable {T : String → String → Prop} (hT : TextRel T) {shape? : Nat → Option Shape}
variable {s : Speller m} {t : Speller n}

theorem mono {vas vas' : List Nat} (h : Related L T shape? vas s t) (hsub : vas' ⊆ vas) :
    Related L T shape? vas' s t :=
  ⟨h.shape, fun va hva => h.reference va (hsub hva)⟩

include hT

theorem variadicParam {param : Nat}
    (h : Related L T shape? [variadicReference shape? param] s t) :
    L.rel T (s.variadicParam param) (t.variadicParam param) := by
  have href := h.reference _ List.mem_cons_self
  refine L.bind (h.shape param) ?_
  rintro _ _ ⟨rfl, rfl⟩
  unfold variadicReference at href
  cases hshape : shape? param with
  | none =>
      rw [hshape] at href
      exact L.bind href fun _ _ hab => L.pure (hT.append_left _ hab)
  | some shape =>
      rw [hshape] at href
      cases shape <;> exact L.bind href fun _ _ hab => L.pure (hT.append_left _ hab)

theorem params {variadic : Bool} {params : List Nat}
    (h : Related L T shape? (paramReferences shape? variadic params) s t) :
    L.rel (List.Forall₂ T) (s.params variadic params) (t.params variadic params) := by
  induction params with
  | nil => exact L.pure .nil
  | cons param rest ih =>
      cases rest with
      | nil =>
          cases variadic with
          | false =>
              have href := h.reference param List.mem_cons_self
              exact L.bind href fun _ _ hab => L.pure (.cons hab .nil)
          | true =>
              exact L.bind (variadicParam hT h) fun _ _ hab => L.pure (.cons hab .nil)
      | cons next rest =>
          have href := h.reference param List.mem_cons_self
          have hrest := ih (h.mono (List.subset_cons_self param _))
          exact L.bind href fun _ _ hab => L.bind hrest fun _ _ habs => L.pure (.cons hab habs)

variable [LawfulMonad m] [LawfulMonad n]

theorem signature {params results : List Nat} {variadic : Bool}
    (h : Related L T shape? (signatureReferences shape? params results variadic) s t) :
    L.rel T (s.signature params results variadic) (t.signature params results variadic) := by
  have hparams := Related.params hT (h.mono (List.subset_append_left _ results))
  have hresults := L.mapM fun va hva => h.reference va (List.mem_append_right _ hva)
  exact L.bind hparams fun _ _ hps => L.bind hresults fun _ _ hrs =>
    L.pure (hT.signatureText hps hrs)

theorem method {method : Method}
    (h : Related L T shape? (methodReferences shape? method) s t) :
    L.rel T (s.method method) (t.method method) := by
  unfold methodReferences at h
  unfold Speller.method
  cases htype : method.type with
  | none =>
      have hnone : L.rel (fun a b : Option Shape => a = none ∧ b = none) (pure none) (pure none) :=
        L.pure ⟨rfl, rfl⟩
      refine L.bind hnone ?_
      rintro _ _ ⟨rfl, rfl⟩
      exact L.pure (hT.refl _)
  | some va =>
      refine L.bind (h.shape va) ?_
      rintro _ _ ⟨rfl, rfl⟩
      rw [htype, Option.bind_some] at h
      cases hshape : shape? va with
      | none => exact L.pure (hT.refl _)
      | some shape =>
          rw [hshape] at h
          cases shape with
          | func params results variadic =>
              exact L.bind (signature hT h) fun _ _ hab => L.pure (hT.append_left _ hab)
          | _ => exact L.pure (hT.refl _)

theorem methods {methods : List Method}
    (h : Related L T shape? (methods.flatMap (methodReferences shape?)) s t) :
    L.rel (List.Forall₂ T) (methods.mapM s.method) (methods.mapM t.method) :=
  L.mapM fun _ hm => method hT (h.mono fun _ hva => List.mem_flatMap_of_mem hm hva)

theorem fields {fields : List Field} (h : Related L T shape? (fields.map (·.type)) s t) :
    L.rel (List.Forall₂ T) (fields.mapM s.field) (fields.mapM t.field) :=
  L.mapM fun f hf =>
    L.bind (h.reference f.type (List.mem_map_of_mem hf)) fun _ _ hab =>
      L.pure (hT.fieldText f hab)

/-- Spellings that are related at the inline references of a descriptor have related literals. -/
theorem literal {d : Descriptor} (h : Related L T shape? (d.shape.inlineReferences shape?) s t) :
    L.rel T (s.literal d) (t.literal d) := by
  unfold Speller.literal
  cases hshape : d.shape with
  | basic => exact L.pure (hT.refl _)
  | array elem _ | chan elem _ | pointer elem | slice elem =>
      rw [hshape] at h
      exact L.bind (h.reference elem List.mem_cons_self) fun _ _ hab =>
        L.pure (hT.append_left _ hab)
  | func params results variadic =>
      rw [hshape] at h
      exact L.bind (signature hT h) fun _ _ hab => L.pure (hT.append_left _ hab)
  | interface methods =>
      rw [hshape] at h
      exact L.bind (Related.methods hT h) fun _ _ hab => L.pure (hT.inlineMembers _ hab)
  | map key elem =>
      rw [hshape] at h
      have helem := h.reference elem (List.mem_cons_of_mem key List.mem_cons_self)
      exact L.bind (h.reference key List.mem_cons_self) fun _ _ hkey =>
        L.bind helem fun _ _ hab =>
          L.pure (hT.append (hT.append_right (hT.append_left _ hkey) _) hab)
  | struct fields =>
      rw [hshape] at h
      exact L.bind (Related.fields hT h) fun _ _ hab => L.pure (hT.inlineMembers _ hab)

theorem definition {d : Descriptor}
    (h : Related L T shape? (d.shape.inlineReferences shape?) s t) :
    L.rel T (s.definition d) (t.definition d) := by
  have hliteral := literal hT h
  unfold Speller.definition
  cases hshape : d.shape with
  | interface methods =>
      rw [hshape] at h
      exact L.bind (Related.methods hT h) fun _ _ hab => L.pure (hT.blockMembers _ hab)
  | struct fields =>
      rw [hshape] at h
      exact L.bind (Related.fields hT h) fun _ _ hab => L.pure (hT.blockMembers _ hab)
  | _ => exact hliteral

end Speller.Related

end GoImage
