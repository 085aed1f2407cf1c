import GoImage.Error
import GoImage.Layout
import GoImage.Text.Pieces

/-!
Release names such as `go1.21.4`, and the layout that a release writes.
-/

namespace GoImage

/-- A release name without blanks around it and without a leading `go`. -/
def releaseNumber (name : List Char) : List Char :=
  let name := Text.trimmed name
  match name with
  | 'g' :: 'o' :: rest => rest
  | _ => name

/-- The minor release that a name states: the digits after `1.`, up to 32 bits. What follows them
does not matter. -/
def minorRelease? (name : String) : Option Nat :=
  match releaseNumber name.toList with
  | '1' :: '.' :: rest =>
    match Text.decimal? (rest.takeWhile Char.isDigit) with
    | some n => if n < 0x100000000 then some n else none
    | none => none
  | _ => none

namespace Layout

def ofMinor (n : Nat) : Except Error Layout :=
  match ofMinor? n with
  | some layout => .ok layout
  | none => .error .unknownVersion

/-- The layout that the named release writes. -/
def ofRelease (name : String) : Except Error Layout :=
  match minorRelease? name with
  | some n => ofMinor n
  | none => .error .unknownVersion

end Layout
end GoImage
