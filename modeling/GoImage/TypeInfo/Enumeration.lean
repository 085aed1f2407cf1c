import GoImage.TypeInfo.Catalogue
import GoImage.TypeInfo.Reader
import GoImage.Warning
import Std.Data.TreeSet

/-!
All types of a module: those that its link tables name, and all that these lead to.
-/

namespace GoImage

open Decoder

namespace Catalogue

/-- Adds to `seen` what can be reached from the pending addresses. Unreadable types have no
children. `room` bounds how many more types can be readable. -/
def discover (read : Nat → Except Error Descriptor) (room : Nat) (seen : Std.TreeSet Nat)
    (pending : List Nat) : Cataloguing (Std.TreeSet Nat) := do
  match pending with
  | [] => return seen
  | va :: rest =>
    if va = 0 || seen.contains va then discover read room seen rest
    else
      match ← lookup read va with
      | .error _ => discover read room (seen.insert va) rest
      | .ok d =>
        match room with
        | 0 => return seen.insert va
        | room + 1 => discover read room (seen.insert va) (d.shape.children ++ rest)
termination_by (room, pending.length)

end Catalogue

namespace TypeReader

/-- The addresses that the links to types lead to. -/
def typelinks (r : TypeReader) (m : ModuleData) : Except Error (List Nat) := do
  if m.typelinks.length = 0 then return []
  let offsets ← r.image.decodeAt m.typelinks.data (times (int .i32) m.typelinks.length)
  return offsets.filterMap r.resolve?

/-- The interface and the concrete type of every method table that can be read. -/
def itabs (r : TypeReader) (m : ModuleData) : Except Error (List (Nat × Nat)) := do
  if m.itablinks.length = 0 then return []
  let links ← r.image.decodeAt m.itablinks.data (times pointer m.itablinks.length)
  let pair : Decoder (Nat × Nat) := return (← pointer, ← pointer)
  return links.filterMap fun itab => (r.image.decodeAt itab pair).toOption

/-- As many types as there are addresses with content in the file can be readable at most. -/
def discoveryRoom (r : TypeReader) : Nat :=
  r.image.sections.foldr (fun s room => s.fileSize + room) 0

/-- The roots and all they lead to, ascending. -/
def reachable (r : TypeReader) (roots : List Nat) : Cataloguing (List Nat) := do
  return (← Catalogue.discover r.read r.discoveryRoom {} roots).toList

end TypeReader

/-- Types and the interfaces that method tables name, each by ascending address, and what could
not be read. -/
structure TypeListing where
  types : List (Nat × String) := []
  interfaces : List (Nat × String) := []
  warnings : List Warning := []
deriving Repr, DecidableEq

/-- A value, or a stand-in for it and the fault it stands in for. -/
def orWarn {α : Type} (warning : Error → Warning) (fallback : α) :
    Except Error α → α × List Warning
  | .ok a => (a, [])
  | .error e => (fallback, [warning e])

/-- The addresses of a list that are not zero, ascending and without repetition. -/
def ascending (vas : List Nat) : List Nat :=
  (Std.TreeSet.ofList (vas.filter (· ≠ 0))).toList

namespace TypeReader

def enumerate (r : TypeReader) (m : ModuleData) : Cataloguing TypeListing := do
  let (roots, rootWarnings) := orWarn .typelinks [] (r.typelinks m)
  let (itabs, itabWarnings) := orWarn .itablinks [] (r.itabs m)
  let types ← Catalogue.entries r.read (← r.reachable (roots ++ itabs.map (·.2)))
  let interfaces ← Catalogue.entries r.read (ascending (itabs.map (·.1)))
  return { types, interfaces, warnings := rootWarnings ++ itabWarnings }

end TypeReader
end GoImage
