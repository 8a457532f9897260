import LexicalRuns.Category
import LexicalRuns.CodePoint
import LexicalRuns.Json.Fault

/-! Faults: every reason for which reading, checking or writing stops, and the message for each. -/
namespace LexicalRuns

inductive FileFault where
  | notFound
  | notDirectory
  | isDirectory
  | occupied
  | nameTooLong
  | zeroCharacter
  | notText
  | other (text : String)
  deriving DecidableEq, Repr

def FileFault.message : FileFault → String
  | .notFound => "No such file or directory (os error 2)"
  | .notDirectory => "Not a directory (os error 20)"
  | .isDirectory => "Is a directory (os error 21)"
  | .occupied => "File exists (os error 17)"
  | .nameTooLong => "File name too long (os error 36)"
  | .zeroCharacter => "file name contained an unexpected NUL byte"
  | .notText => "stream did not contain valid UTF-8"
  | .other text => text

inductive LineFault where
  | tooFewFields (count : Nat)
  | badCodePoint (field : String) (cause : Text.Hex.Fault)
  | outOfRange (codePoint : Nat)
  | unknownCategory (field : String)
  | neverClosed (block : String) (opened : Nat)
  | notOpened (block : String)
  | mismatched (block opened : String)
  | insideRange (block : String) (opened : Nat)
  | noLastEntry (block : String)
  deriving DecidableEq, Repr

def unknownCategoryMessage (text : String) : String :=
  "unknown general category " ++ Text.quote text

def LineFault.message : LineFault → String
  | .tooFewFields count => "expected at least 3 fields, got " ++ toString count
  | .badCodePoint field cause => "bad code point " ++ Text.quote field ++ ": " ++ cause.message
  | .outOfRange c => "code point 0x" ++ Text.Hex.lower 1 c ++ " out of range"
  | .unknownCategory field => unknownCategoryMessage field
  | .neverClosed block opened =>
    "range " ++ Text.quote block ++ " opened at line " ++ toString opened ++ " was never closed"
  | .notOpened block => Text.quote block ++ " Last without First"
  | .mismatched block opened =>
    Text.quote block ++ " Last does not match " ++ Text.quote opened ++ " First"
  | .insideRange block opened =>
    "entry inside range " ++ Text.quote block ++ " opened at line " ++ toString opened
  | .noLastEntry block => "range " ++ Text.quote block ++ " has no Last entry"

/-- A field of a packed run that can overflow. -/
inductive Field where
  | codePoint
  | runLength
  deriving DecidableEq, Repr

def Field.name : Field → String
  | .codePoint => "code point"
  | .runLength => "run length"

def Field.bits : Field → Nat
  | .codePoint => 21
  | .runLength => 9

inductive ArtifactFault where
  | tooManyRuns (count : Nat)
  | tooShort
  | badMagic
  | truncatedWord
  | unusedRule (word : UInt32)
  | trailingBytes (count : Nat)
  deriving DecidableEq, Repr

def ArtifactFault.message : ArtifactFault → String
  | .tooManyRuns count => toString count ++ " runs exceed u32::MAX"
  | .tooShort => "bin too short"
  | .badMagic => "bad magic in cprun .bin"
  | .truncatedWord => "truncated u32"
  | .unusedRule word => "unused rule bits 0b10 in 0x" ++ Text.Hex.lower 8 word.toNat
  | .trailingBytes count => toString count ++ " trailing bytes"

inductive Fault where
  | file (cause : FileFault)
  | json (cause : Json.Fault)
  | line (number : Nat) (cause : LineFault)
  | unknownCategory (text : String)
  | inconsistentOverride (codePoint : Nat) (category : Category) (expected : Rule)
      (actual : Option Rule)
  | overflow (field : Field) (value : Nat)
  | outOfBounds (codePoint length : Nat)
  | unordered (index start previousStop : Nat)
  | coverage (codePoint : Nat) (expected found : Option Rule)
  | artifact (cause : ArtifactFault)
  deriving DecidableEq, Repr

def Fault.message : Fault → String
  | .file cause => "I/O error: " ++ cause.message
  | .json cause => "JSON error: " ++ cause.message
  | .line number cause => "UnicodeData line " ++ toString number ++ ": " ++ cause.message
  | .unknownCategory text => unknownCategoryMessage text
  | .inconsistentOverride c category expected actual =>
    "override " ++ CodePoint.label c ++ " uses " ++ category.label ++ ", which maps to " ++
      Rule.optionLabel actual ++ " instead of " ++ expected.label
  | .overflow field value =>
    field.name ++ " value 0x" ++ Text.Hex.lower 1 value ++ " does not fit in " ++
      toString field.bits ++ " bits"
  | .outOfBounds c length =>
    "run " ++ CodePoint.label c ++ "+" ++ toString length ++ " ends past U+10FFFF"
  | .unordered index start previousStop =>
    "run table out of order at record " ++ toString index ++ ": run at " ++
      CodePoint.label start ++ " starts before the previous run ends at " ++
      CodePoint.label previousStop
  | .coverage c expected found =>
    CodePoint.label c ++ ": table says " ++ Rule.optionLabel found ++
      ", classification says " ++ Rule.optionLabel expected
  | .artifact cause => "bad table artifact: " ++ cause.message

end LexicalRuns
