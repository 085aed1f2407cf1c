/-!
String literals, either raw between backquotes or interpreted between double quotes. Reading takes
one literal off the front of a text.
-/

namespace GoImage.Text

def backquote : Char := '\x60'

def charOfCode? (code : Nat) : Option Char :=
  if code.isValidChar then some (Char.ofNat code) else none

/-- The value of a hexadecimal digit in either case. -/
def hexDigit? (c : Char) : Option Nat :=
  if c.isDigit then some (c.toNat - '0'.toNat)
  else if 'a' ≤ c ∧ c ≤ 'f' then some (c.toNat - 'a'.toNat + 10)
  else if 'A' ≤ c ∧ c ≤ 'F' then some (c.toNat - 'A'.toNat + 10)
  else none

/-- The number that exactly `count` digits to a base of at most sixteen denote. -/
def digits? (base count : Nat) (cs : List Char) : Option Nat :=
  if cs.length < count then none
  else
    (cs.take count).foldlM (fun n c =>
      match hexDigit? c with
      | some d => if d < base then some (base * n + d) else none
      | none => none) 0

/-- The character that an escape stands for, and how many characters follow the backslash. -/
def escape? : List Char → Option (Char × Nat)
  | [] => none
  | c :: rest =>
    let numeric (base count : Nat) (cs : List Char) (width : Nat) : Option (Char × Nat) :=
      ((digits? base count cs).bind charOfCode?).map (·, width)
    match c with
    | 'a' => some ('\x07', 1)
    | 'b' => some ('\x08', 1)
    | 'f' => some ('\x0c', 1)
    | 'n' => some ('\n', 1)
    | 'r' => some ('\r', 1)
    | 't' => some ('\t', 1)
    | 'v' => some ('\x0b', 1)
    | '\\' => some ('\\', 1)
    | '"' => some ('"', 1)
    | '\'' => some ('\'', 1)
    | 'x' => numeric 16 2 rest 3
    | 'u' => numeric 16 4 rest 5
    | 'U' => numeric 16 8 rest 9
    | _ => numeric 8 3 (c :: rest) 3

/-- The text up to the closing double quote, and what follows it. A line end may not stand in
it. -/
def interpreted? : List Char → Option (List Char × List Char)
  | [] => none
  | c :: rest =>
    if c = '"' then some ([], rest)
    else if c = '\n' then none
    else if c = '\\' then
      match escape? rest with
      | none => none
      | some (value, width) =>
        (interpreted? (rest.drop width)).map fun (text, rest) => (value :: text, rest)
    else (interpreted? rest).map fun (text, rest) => (c :: text, rest)
termination_by cs => cs.length
decreasing_by
  · simp only [List.length_cons, List.length_drop]
    omega
  · simp

/-- The text up to the closing backquote, and what follows it. -/
def raw? : List Char → Option (List Char × List Char)
  | [] => none
  | c :: rest =>
    if c = backquote then some ([], rest)
    else (raw? rest).map fun (text, rest) => (c :: text, rest)

/-- The literal at the front of a text, and what follows it. -/
def literal? : List Char → Option (List Char × List Char)
  | [] => none
  | c :: rest =>
    if c = '"' then interpreted? rest
    else if c = backquote then raw? rest
    else none

end GoImage.Text
