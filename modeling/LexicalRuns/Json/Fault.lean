import LexicalRuns.Decimal.Shortest
import LexicalRuns.Text.Quoted

/-! Faults of a JSON document, as `serde_json` tells them apart. Either the text is broken or ends too
early, which is all that is said of it, or it is in order so far and a value has the wrong shape. The
messages about shapes are those of `serde`, without the line and column behind them. -/
namespace LexicalRuns.Json

/-- How a text is broken: it holds something it may not, or it ends too early. -/
inductive Defect where
  | malformed
  | truncated
  deriving DecidableEq, Repr

/-- A value that stands where another was due. Lists and objects are named by their opening
bracket, before their content is read. -/
inductive Found where
  | null
  | boolean (value : Bool)
  | integer (value : Int)
  | float (negative : Bool) (magnitude : Decimal.Binary64)
  | text (value : String)
  | list
  | object
  deriving DecidableEq, Repr

inductive Wanted where
  | u32
  | unit
  | list
  | table
  | run
  deriving DecidableEq, Repr

inductive Mismatch where
  | missingField (name : String)
  | duplicateField (name : String)
  | wrongType (found : Found) (wanted : Wanted)
  | wrongInteger (value : Int)
  | wrongLength (length : Nat) (wanted : Wanted)
  | unknownRule (name : String)
  deriving DecidableEq, Repr

inductive Fault where
  | text (defect : Defect)
  | shape (mismatch : Mismatch)
  deriving DecidableEq, Repr

def Found.message : Found → String
  | .null => "null"
  | .boolean value => "boolean `" ++ toString value ++ "`"
  | .integer value => "integer `" ++ toString value ++ "`"
  | .float negative magnitude => "floating point `" ++ magnitude.text negative ++ "`"
  | .text value => "string " ++ Text.quote value
  | .list => "sequence"
  | .object => "map"

def Wanted.message : Wanted → String
  | .u32 => "u32"
  | .unit => "unit"
  | .list => "a sequence"
  | .table => "struct TableDisk"
  | .run => "struct RunDisk"

/-- How many elements a list must have to stand for what is wanted. -/
def Wanted.elements : Wanted → String
  | .table => " with 1 element"
  | .run => " with 3 elements"
  | _ => ""

def Mismatch.message : Mismatch → String
  | .missingField name => "missing field `" ++ name ++ "`"
  | .duplicateField name => "duplicate field `" ++ name ++ "`"
  | .wrongType found wanted =>
    "invalid type: " ++ found.message ++ ", expected " ++ wanted.message
  | .wrongInteger value =>
    "invalid value: integer `" ++ toString value ++ "`, expected " ++ Wanted.u32.message
  | .wrongLength length wanted =>
    "invalid length " ++ toString length ++ ", expected " ++ wanted.message ++ wanted.elements
  | .unknownRule name =>
    "unknown variant `" ++ name ++
      "`, expected one of `whitespace`, `identifier_start`, `identifier_part`"

def Defect.message : Defect → String
  | .malformed => "malformed text"
  | .truncated => "text ends too early"

def Fault.message : Fault → String
  | .text defect => defect.message
  | .shape mismatch => mismatch.message

end LexicalRuns.Json
