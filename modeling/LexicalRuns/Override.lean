import LexicalRuns.Database
import LexicalRuns.Fault

/-! Overrides: code points whose category is changed before anything is classified, so that they
get the rule a reader of programs expects. -/
namespace LexicalRuns

structure Override where
  codePoint : Nat
  category : Category
  /-- The rule that the category is meant to give. -/
  produces : Rule
  deriving DecidableEq, Repr

namespace Override

def whitespace (c : Nat) : Override := ⟨c, .spaceSeparator, .whitespace⟩

def identifierStart (c : Nat) : Override := ⟨c, .otherLetter, .identifierStart⟩

def identifierPart (c : Nat) : Override := ⟨c, .spacingMark, .identifierPart⟩

/-- The blank controls, the dollar sign and the low line, the no-break space, the joiners and the
byte order mark. -/
def all : List Override := [
  whitespace 0x0009, whitespace 0x000A, whitespace 0x000B, whitespace 0x000C, whitespace 0x000D,
  whitespace 0x0020, identifierStart 0x0024, identifierStart 0x005F, whitespace 0x00A0,
  identifierPart 0x200C, identifierPart 0x200D, whitespace 0xFEFF]

def missingName : String := "<override>"

/-- Fails at the first override whose category does not give its rule. -/
def check : List Override → Except Fault Unit
  | [] => .ok ()
  | o :: rest =>
    let actual := o.category.rule?
    if actual = some o.produces then check rest
    else .error (.inconsistentOverride o.codePoint o.category o.produces actual)

/-- Sets the category of one code point and keeps its name, if it has one. -/
def patch (db : Database) (o : Override) : Database :=
  match db[o.codePoint]? with
  | some record => db.insert o.codePoint { record with category := o.category }
  | none => db.insert o.codePoint ⟨missingName, o.category⟩

end Override

namespace Database

def applyOverrides (db : Database) : Except Fault Database :=
  match Override.check Override.all with
  | .error fault => .error fault
  | .ok () => .ok (Override.all.foldl Override.patch db)

/-- The rule of a code point in a database that has its overrides. -/
def classify (db : Database) (c : Nat) : Option Rule :=
  match db[c]? with
  | none => none
  | some record => record.category.rule?

end Database

end LexicalRuns
