import GoImage.Bytes.Utf8
import GoImage.Text.Escape

/-!
Everything that can go wrong while an image is read, as causes. `Error.message` is the wording.
-/

namespace GoImage

/-- Bytes that are present but do not form the value asked for. -/
inductive Malformation
  | pointerSize (size : Nat)
  | varintOverflow
  | text (start stop : Nat) (fault : Utf8.Fault)
  | negativeNameOffset (offset : Int)
  | nameOffset (offset : Int)
  | methodNameOffset (offset : Int)
  | channelDirection (raw : Nat)
  | sliceRange (length capacity : Nat)
  | nameText (va : Nat)
  | stringLength (length : Nat)
deriving Repr, DecidableEq

/-- Contradictions inside a function table. -/
inductive TableFault
  | pointerSize (size : Nat)
  | functionCount (count size : Nat)
  | descending (start stop : Nat)
  | fileCount (count : Nat)
deriving Repr, DecidableEq

/-- Why a line of module information is rejected. -/
inductive LineFault
  | moduleColumns
  | replacementColumns
  | replacementAlone
  | emptySetting
  | quotedKey
  | separatorAfterKey
  | separatorMissing
  | quotedValue
deriving Repr, DecidableEq

inductive Error
  | empty
  | unsupportedFormat
  | unreadableFile
  | container
  | unknownVersion
  | moduleDataNotFound
  | buildInfoAbsent
  | outOfBounds
  | malformed (cause : Malformation)
  | functionTable (cause : TableFault)
  | versionString (cause : Error)
  | moduleInfo (cause : Error)
  | stringPointers (size : Nat)
  | endMarkerMissing (version : String)
  | line (cause : LineFault) (text : String)
  | descriptor (va : Nat) (cause : Error)
  | aborted
deriving Repr, DecidableEq

namespace Utf8.Fault

def message (fault : Fault) : String :=
  match fault.width with
  | some width => s!"invalid utf-8 sequence of {width} bytes from index {fault.validUpTo}"
  | none => s!"incomplete utf-8 byte sequence from index {fault.validUpTo}"

end Utf8.Fault

namespace Malformation

def message : Malformation → String
  | pointerSize size => s!"Unsupported pointer size - {size}"
  | varintOverflow => "Varint overflows 64 bits"
  | text start stop fault =>
    s!"Invalid UTF-8 string at offset {start}-{stop}: " ++ fault.message
  | negativeNameOffset offset => s!"Negative name offset {offset}"
  | nameOffset offset => s!"Name offset {offset} out of range"
  | methodNameOffset offset => s!"Method name offset {offset}"
  | channelDirection raw => s!"Invalid channel direction {raw}"
  | sliceRange length capacity =>
    s!"Slice of {length} elements (capacity {capacity}) is out of range"
  | nameText va => "Name at 0x" ++ Text.hex va ++ " is not valid UTF-8"
  | stringLength length => s!"String length {length} is implausible"

end Malformation

namespace TableFault

def message : TableFault → String
  | pointerSize size => s!"invalid pointer size {size}"
  | functionCount count size => s!"{count} functions do not fit in a table of {size} bytes"
  | descending start stop =>
    "function at 0x" ++ Text.hex start ++ " ends before it starts (0x" ++ Text.hex stop ++ ")"
  | fileCount count => s!"{count} files do not fit in the file table"

end TableFault

namespace LineFault

def message : LineFault → String
  | moduleColumns => "expected 2 or 3 columns"
  | replacementColumns => "expected 3 columns for replacement"
  | replacementAlone => "replacement with no module before it"
  | emptySetting => "empty build setting"
  | quotedKey => "bad quoted key"
  | separatorAfterKey => "missing '=' after key"
  | separatorMissing => "missing '=' in build setting"
  | quotedValue => "bad quoted value"

end LineFault

namespace Error

def message : Error → String
  | empty => "Provided input was empty"
  | unsupportedFormat => "This file type is not supported"
  | unreadableFile => "The file could not be read"
  | container => "The container headers are damaged"
  | unknownVersion => "Unable to determine the Go runtime layout version"
  | moduleDataNotFound => "Failed to locate the runtime module data"
  | buildInfoAbsent => "No build info present"
  | outOfBounds => "Out of Bound read would have occurred!"
  | malformed cause => "Malformed - " ++ cause.message
  | functionTable cause => "Malformed function table - " ++ cause.message
  | versionString cause => "Build info truncated - version string: " ++ cause.message
  | moduleInfo cause => "Build info truncated - module info: " ++ cause.message
  | stringPointers size => s!"Build info truncated - invalid pointer size {size}"
  | endMarkerMissing version =>
    "Build info truncated - module info of " ++ version ++ " has no end marker"
  | line cause text =>
    "Build info truncated - " ++ cause.message ++ " in line " ++ Text.escaped text
  | descriptor va cause =>
    "Failed to decode type at 0x" ++ Text.hex va ++ " - " ++ cause.message
  | aborted => "The run was aborted"

end Error
end GoImage
