import GoImage.TypeInfo.Descriptor

/-!
How types are written. A type literal is put together from the texts of the types it refers to;
where those come from is left open.
-/

namespace GoImage

/-- What spelling needs to know about other types. -/
structure Speller (m : Type → Type) where
  /-- The text of a type where another one refers to it. -/
  reference : Nat → m String
  shape? : Nat → m (Option Shape)

/-- Members of a struct or an interface on one line. -/
def inlineMembers (keyword : String) (members : List String) : String :=
  if members.isEmpty then keyword ++ " \x7b\x7d"
  else keyword ++ " \x7b " ++ String.intercalate "; " members ++ " \x7d"

/-- Members of a struct or an interface on lines of their own. -/
def blockMembers (keyword : String) (members : List String) : String :=
  if members.isEmpty then keyword ++ " \x7b\x7d"
  else
    keyword ++ " \x7b\n" ++
      String.join (members.map fun member => "    " ++ member ++ "\n") ++ "\x7d"

/-- Parameters and results; a single result stands without brackets. -/
def signatureText (params results : List String) : String :=
  let params := "(" ++ String.intercalate ", " params ++ ")"
  match results with
  | [] => params
  | [result] => params ++ " " ++ result
  | _ => params ++ " (" ++ String.intercalate ", " results ++ ")"

/-- A field without a name of its own, or embedded, is its type. An empty tag does not show. -/
def fieldText (f : Field) (type : String) : String :=
  let line := if f.embedded || f.name.isEmpty then type else f.name ++ " " ++ type
  match f.tag with
  | none => line
  | some tag => if tag.isEmpty then line else line ++ " `" ++ tag ++ "`"

namespace Speller

variable {m : Type → Type} [Monad m]

/-- The last parameter of a variadic function: its elements, if it is a slice. -/
def variadicParam (s : Speller m) (param : Nat) : m String := do
  match ← s.shape? param with
  | some (.slice elem) => return "..." ++ (← s.reference elem)
  | _ => return "..." ++ (← s.reference param)

def params (s : Speller m) (variadic : Bool) : List Nat → m (List String)
  | [] => return []
  | [last] => return [← if variadic then s.variadicParam last else s.reference last]
  | param :: rest => do
    let text ← s.reference param
    return text :: (← s.params variadic rest)

def signature (s : Speller m) (params results : List Nat) (variadic : Bool) : m String := do
  let params ← s.params variadic params
  return signatureText params (← results.mapM s.reference)

/-- A method of an interface; without a function type it has no parameters. -/
def method (s : Speller m) (method : Method) : m String := do
  let shape ← match method.type with
    | some va => s.shape? va
    | none => pure none
  match shape with
  | some (.func params results variadic) =>
    return method.name ++ (← s.signature params results variadic)
  | _ => return method.name ++ "()"

def field (s : Speller m) (f : Field) : m String :=
  return fieldText f (← s.reference f.type)

/-- The literal of a type, its name left out of account. -/
def literal (s : Speller m) (d : Descriptor) : m String := do
  match d.shape with
  | .basic => return d.kind.builtin?.getD ("<" ++ d.kind.name ++ ">")
  | .array elem length => return s!"[{length}]" ++ (← s.reference elem)
  | .chan elem dir => return dir.keyword ++ (← s.reference elem)
  | .func params results variadic => return "func" ++ (← s.signature params results variadic)
  | .interface methods => return inlineMembers "interface" (← methods.mapM s.method)
  | .map key elem =>
    let key ← s.reference key
    return "map[" ++ key ++ "]" ++ (← s.reference elem)
  | .pointer elem => return "*" ++ (← s.reference elem)
  | .slice elem => return "[]" ++ (← s.reference elem)
  | .struct fields => return inlineMembers "struct" (← fields.mapM s.field)

/-- What stands behind the name in the declaration of a named type. -/
def definition (s : Speller m) (d : Descriptor) : m String := do
  match d.shape with
  | .struct fields => return blockMembers "struct" (← fields.mapM s.field)
  | .interface methods => return blockMembers "interface" (← methods.mapM s.method)
  | _ => s.literal d

end Speller
end GoImage
