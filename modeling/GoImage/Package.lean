/-!
Import paths in qualified function names, and the packages of the standard library.
-/

namespace GoImage

/-- First elements of the import paths of the standard library. -/
def standardRoots : List String := [
  "archive", "bufio", "builtin", "bytes", "cmp", "compress", "container", "context", "crypto",
  "database", "debug", "embed", "encoding", "errors", "expvar", "flag", "fmt", "go", "hash",
  "html", "image", "index", "internal", "io", "iter", "log", "maps", "math", "mime", "net", "os",
  "path", "plugin", "reflect", "regexp", "runtime", "slices", "sort", "strconv", "strings",
  "sync", "syscall", "testing", "text", "time", "unicode", "unique", "unsafe", "vendor", "weak"]

/-- Beginnings of the names that the compiler gives to functions of its own. -/
def generatedBeginnings : List String :=
  ["go.", "type.", "go:", "type:"]

/-- A name without what stands from its first `[` to its last `]`. -/
def withoutInstantiation (name : List Char) : List Char :=
  let before := name.takeWhile (· ≠ '[')
  let after := (name.reverse.takeWhile (· ≠ ']')).reverse
  if before.length + 1 + after.length < name.length then before ++ after else name

def isGenerated (name : List Char) : Bool :=
  generatedBeginnings.any fun beginning => beginning.toList.isPrefixOf name

/-- Splits a path behind its last `/`. -/
def splitPath (path : List Char) : List Char × List Char :=
  ((path.reverse.dropWhile (· ≠ '/')).reverse, (path.reverse.takeWhile (· ≠ '/')).reverse)

/-- The import path of a qualified name: up to the first `.` behind the last `/`. Names made by
the compiler have none. -/
def packageChars (name : List Char) : List Char :=
  let name := withoutInstantiation name
  if isGenerated name then []
  else
    let (directory, base) := splitPath name
    if base.contains '.' then directory ++ base.takeWhile (· ≠ '.') else []

def packageName (name : String) : String :=
  String.ofList (packageChars name.toList)

/-- Whether a package is part of the standard library, or no package at all. -/
def isStandard (package : String) : Bool :=
  package.isEmpty || standardRoots.any fun root =>
    package == root || (root.toList ++ ['/']).isPrefixOf package.toList

end GoImage
