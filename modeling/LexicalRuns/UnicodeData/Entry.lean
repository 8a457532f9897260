import LexicalRuns.Fault
import LexicalRuns.Text.Blank
import LexicalRuns.Text.Utf8

/-! Lines of character data. A content line has fields separated by semicolons: a code point in
hexadecimal, a name, a general category, and others that are not looked at. A name in angle
brackets that ends in `, First` or `, Last` marks an end of a range. -/
namespace LexicalRuns.UnicodeData

inductive Naming where
  | single (name : String)
  | first (block : String)
  | last (block : String)
  deriving DecidableEq, Repr

structure Entry where
  codePoint : Nat
  naming : Naming
  category : Category
  deriving DecidableEq, Repr

def before? (ending text : List Char) : Option (List Char) :=
  if ending.isSuffixOf text then some (text.take (text.length - ending.length)) else none

def firstEnding : List Char := [',', ' ', 'F', 'i', 'r', 's', 't', '>']

def lastEnding : List Char := [',', ' ', 'L', 'a', 's', 't', '>']

def Naming.ofField (name : List Char) : Naming :=
  match name with
  | '<' :: rest =>
    match before? firstEnding rest, before? lastEnding rest with
    | some block, _ => .first (String.ofList block)
    | none, some block => .last (String.ofList block)
    | none, none => .single (String.ofList name)
  | _ => .single (String.ofList name)

/-- Checks the number of fields, the code point and the category, in this order. -/
def Entry.ofFields : List (List Char) → Except LineFault Entry
  | point :: name :: category :: _ =>
    match Text.Hex.read point with
    | .error cause => .error (.badCodePoint (String.ofList point) cause)
    | .ok c =>
      if CodePoint.last < c then .error (.outOfRange c)
      else
        match Category.ofCode? (String.ofList category) with
        | none => .error (.unknownCategory (String.ofList category))
        | some k => .ok ⟨c, .ofField name, k⟩
  | fields => .error (.tooFewFields fields.length)

/-- A line that is empty between its white space, or starts with a number sign, has no entry. -/
def hasContent : List Char → Bool
  | [] => false
  | c :: _ => c != '#'

def Entry.ofLine? (line : String) : Except LineFault (Option Entry) :=
  let text := Text.trim line.toList
  if hasContent text then (Entry.ofFields (text.splitOn ';')).map some else .ok none

def readLine (number : Nat) (bytes : List UInt8) : Except Fault (Option Entry) :=
  match Text.decode? bytes with
  | none => .error (.file .notText)
  | some line => (Entry.ofLine? line).mapError (.line number)

end LexicalRuns.UnicodeData
