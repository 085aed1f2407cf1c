import GoImage.Error
import GoImage.TypeInfo.Spelling
import Std.Data.HashMap

/-!
Types written out, given a way to read descriptors. Descriptors and finished texts are remembered
from one question to the next.
-/

namespace GoImage

/-- How deep types are written inside each other. -/
def maxDepth : Nat := 64

/-- What is remembered between questions. -/
structure Catalogue where
  /-- Descriptors in the order in which they were read. -/
  arena : Array Descriptor := #[]
  /-- Where in the arena the descriptor at an address is. -/
  index : Std.HashMap Nat Nat := {}
  failures : Std.HashMap Nat Error := {}
  /-- Texts in which nothing was cut short. -/
  rendered : Std.HashMap Nat String := {}
  /-- Types whose text is being written, innermost first. -/
  inProgress : List Nat := []
  /-- How many references were cut short so far. -/
  backReferences : Nat := 0

abbrev Cataloguing := StateM Catalogue

/-- The text of a reference to a type that cannot be read. -/
def invalidText (va : Nat) : String :=
  "<invalid 0x" ++ Text.hex va ++ ">"

/-- The text of a reference that is cut short. -/
def backReferenceText (va : Nat) : String :=
  "<ref 0x" ++ Text.hex va ++ ">"

namespace Catalogue

def known? (c : Catalogue) (va : Nat) : Option Descriptor :=
  c.index[va]?.bind (c.arena[·]?)

def keep (c : Catalogue) (va : Nat) (d : Descriptor) : Catalogue :=
  { c with arena := c.arena.push d, index := c.index.insert va c.arena.size }

/-- Counts a reference that is cut short. -/
def backReference (va : Nat) : Cataloguing String := do
  modify fun c => { c with backReferences := c.backReferences + 1 }
  return backReferenceText va

/-- Runs while a type counts as being written. -/
def during {α : Type} (va : Nat) (action : Cataloguing α) : Cataloguing α := do
  modify fun c => { c with inProgress := va :: c.inProgress }
  let a ← action
  modify fun c => { c with inProgress := c.inProgress.erase va }
  return a

variable (read : Nat → Except Error Descriptor)

/-- The descriptor at an address. A failure that is met again names the first one as its cause. -/
def lookup (va : Nat) : Cataloguing (Except Error Descriptor) := do
  let c ← get
  match c.known? va with
  | some d => return .ok d
  | none =>
    match c.failures[va]? with
    | some e => return .error (.descriptor va e)
    | none =>
      match read va with
      | .ok d =>
        set (c.keep va d)
        return .ok d
      | .error e =>
        set { c with failures := c.failures.insert va e }
        return .error e

def lookupShape? (va : Nat) : Cataloguing (Option Shape) := do
  match ← lookup read va with
  | .ok d => return some d.shape
  | .error _ => return none

/-- Spells with shapes that are looked up and references from elsewhere. -/
def spelling (reference : Nat → Cataloguing String) : Speller Cataloguing :=
  { reference, shape? := lookupShape? read }

/-- The text of a type where another one refers to it, with `room` levels left. A named type is
its name. An unnamed one is its literal, unless it is being written already or there is no room;
a literal without such a cut is remembered. -/
def reference (room va : Nat) : Cataloguing String := do
  match ← lookup read va with
  | .error _ => return invalidText va
  | .ok d =>
    if d.isNamed then return d.name
    let c ← get
    match c.rendered[va]? with
    | some text => return text
    | none =>
      match room with
      | 0 => backReference va
      | room + 1 =>
        if va ∈ c.inProgress then backReference va
        else
          let text ← during va ((spelling read (reference room)).literal d)
          modify fun after =>
            if after.backReferences = c.backReferences then
              { after with rendered := after.rendered.insert va text }
            else after
          return text

/-- The declaration of a named type, or the literal of an unnamed one; empty if it cannot be
read. -/
def declaration (va : Nat) : Cataloguing String := do
  match ← lookup read va with
  | .error _ => return ""
  | .ok d =>
    if d.isNamed then
      let definition ← during va ((spelling read (reference read (maxDepth - 1))).definition d)
      return "type " ++ d.name ++ " " ++ definition
    else reference read maxDepth va

/-- Addresses with the declarations of their types. -/
def entries (vas : List Nat) : Cataloguing (List (Nat × String)) :=
  vas.mapM fun va => return (va, ← declaration read va)

/-- The one type at an address. -/
def manual (va : Nat) : Cataloguing (List (Nat × String)) :=
  entries read [va]

end Catalogue
end GoImage
