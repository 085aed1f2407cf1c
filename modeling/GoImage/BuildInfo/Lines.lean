import GoImage.BuildInfo.Basic
import GoImage.Error
import GoImage.Text.Literal
import GoImage.Text.Pieces

/-!
Module information as text, a line for each fact. A line that breaks the grammar changes nothing
and ends the reading; what the lines before it said stays.
-/

namespace GoImage.BuildInfo

/-- The module that a replacement line would speak about. -/
inductive Target
  | main
  | dependency (index : Nat)
deriving Repr, DecidableEq

/-- What the lines so far have said. -/
structure Lines where
  info : BuildInfo := {}
  target : Option Target := none
deriving Repr, DecidableEq

abbrev LineResult := Except LineFault

def columns (rest : List Char) : List String :=
  (Text.pieces '\t' rest).map String.ofList

/-- Path, version and possibly a checksum. -/
def moduleOf (rest : List Char) : LineResult Module :=
  match columns rest with
  | [path, version] => .ok { path, version }
  | [path, version, sum] => .ok { path, version, sum }
  | _ => .error .moduleColumns

def replacementOf (rest : List Char) : LineResult ModuleVersion :=
  match columns rest with
  | [path, version, sum] => .ok { path, version, sum }
  | _ => .error .replacementColumns

/-- The key of a setting, and what stands behind the sign of equality. -/
def settingKey (rest : List Char) : LineResult (List Char × List Char) :=
  if rest.head? = some '"' then
    match Text.literal? rest with
    | none => .error .quotedKey
    | some (key, '=' :: value) => .ok (key, value)
    | some _ => .error .separatorAfterKey
  else
    match Text.cut? '=' rest with
    | some (key, value) => .ok (key, value)
    | none => .error .separatorMissing

/-- A value that starts as a literal must be one to its end. -/
def settingValue (value : List Char) : LineResult (List Char) :=
  if value.head? = some '"' ∨ value.head? = some Text.backquote then
    match Text.literal? value with
    | some (value, []) => .ok value
    | _ => .error .quotedValue
  else .ok value

def settingOf (rest : List Char) : LineResult Setting := do
  if rest.isEmpty then throw .emptySetting
  let (key, value) ← settingKey rest
  return ⟨String.ofList key, String.ofList (← settingValue value)⟩

/-- A line, by the word it starts with. -/
inductive Line
  | path (text : List Char)
  | main (columns : List Char)
  | dependency (columns : List Char)
  | replacement (columns : List Char)
  | setting (text : List Char)
  | other
deriving Repr, DecidableEq

def Line.of (line : List Char) : Line :=
  match Text.after? "path\t".toList line with
  | some rest => .path rest
  | none =>
  match Text.after? "mod\t".toList line with
  | some rest => .main rest
  | none =>
  match Text.after? "dep\t".toList line with
  | some rest => .dependency rest
  | none =>
  match Text.after? "=>\t".toList line with
  | some rest => .replacement rest
  | none =>
  match Text.after? "build\t".toList line with
  | some rest => .setting rest
  | none => .other

namespace Lines

/-- Puts a replacement into the module that was named last. -/
def replace (lines : Lines) (version : ModuleVersion) : LineResult Lines :=
  let info := lines.info
  let put (m : Module) : Module := { m with replacement := some version }
  match lines.target with
  | some .main => .ok ⟨{ info with main := put info.main }, none⟩
  | some (.dependency i) =>
    .ok ⟨{ info with dependencies := info.dependencies.modify i put }, none⟩
  | none => .error .replacementAlone

/-- One more line. Lines that start with no known word say nothing. -/
def add (lines : Lines) (line : Line) : LineResult Lines := do
  let info := lines.info
  match line with
  | .path text => return { lines with info := { info with path := String.ofList text } }
  | .main columns => return ⟨{ info with main := ← moduleOf columns }, some .main⟩
  | .dependency columns =>
    let m ← moduleOf columns
    return ⟨{ info with dependencies := info.dependencies ++ [m] },
      some (.dependency info.dependencies.length)⟩
  | .replacement columns => lines.replace (← replacementOf columns)
  | .setting text =>
    return { lines with info := { info with settings := info.settings ++ [← settingOf text] } }
  | .other => return lines

end Lines

/-- Reads lines one after the other, empty ones left out. -/
def readLines : List (List Char) → EStateM Error Lines Unit
  | [] => pure ()
  | line :: rest => do
    if !line.isEmpty then
      match (← get).add (Line.of line) with
      | .ok lines => set lines
      | .error fault => throw (.line fault (String.ofList line))
    readLines rest

/-- Reads a text, on top of what earlier texts have said. -/
def readText (text : String) : EStateM Error Lines Unit :=
  readLines (Text.pieces '\n' text.toList)

end GoImage.BuildInfo
