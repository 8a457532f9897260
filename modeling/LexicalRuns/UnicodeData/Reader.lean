import LexicalRuns.Database
import LexicalRuns.Text.Lines
import LexicalRuns.UnicodeData.Entry

/-! Reading character data into a database. A range is a first and a last entry with nothing but
blank lines and comments between them. Later lines overwrite earlier ones, and the first fault in
the order of lines ends the reading. -/
namespace LexicalRuns.UnicodeData

/-- A range whose last entry is still to come. -/
structure OpenRange where
  start : Nat
  block : String
  category : Category
  line : Nat
  deriving DecidableEq, Repr

structure Progress where
  database : Database
  opened : Option OpenRange

namespace Progress

def start : Progress := ⟨∅, none⟩

def rangeRecord (r : OpenRange) (c : Nat) : Record :=
  ⟨r.block ++ "-" ++ Text.Hex.upper 4 c, r.category⟩

def add (p : Progress) (number : Nat) (e : Entry) : Except LineFault Progress :=
  match e.naming, p.opened with
  | .first block, none => .ok { p with opened := some ⟨e.codePoint, block, e.category, number⟩ }
  | .first _, some r => .error (.neverClosed r.block r.line)
  | .last block, none => .error (.notOpened block)
  | .last block, some r =>
    if r.block = block ∧ r.start ≤ e.codePoint then
      .ok ⟨p.database.fill r.start (e.codePoint + 1 - r.start) (rangeRecord r), none⟩
    else .error (.mismatched block r.block)
  | .single name, none => .ok { p with database := p.database.insert e.codePoint ⟨name, e.category⟩ }
  | .single _, some r => .error (.insideRange r.block r.line)

def addLines (p : Progress) (number : Nat) : List (List UInt8) → Except Fault Progress
  | [] => .ok p
  | line :: rest =>
    match readLine number line with
    | .error fault => .error fault
    | .ok none => addLines p (number + 1) rest
    | .ok (some e) =>
      match p.add number e with
      | .error fault => .error (.line number fault)
      | .ok p => addLines p (number + 1) rest

/-- The database, unless a range is still open; that is the fault of the line that opened it. -/
def finish (p : Progress) : Except Fault Database :=
  match p.opened with
  | none => .ok p.database
  | some r => .error (.line r.line (.noLastEntry r.block))

end Progress

def read (text : List UInt8) : Except Fault Database :=
  (Progress.start.addLines 1 (Text.lines text)).bind Progress.finish

end LexicalRuns.UnicodeData
