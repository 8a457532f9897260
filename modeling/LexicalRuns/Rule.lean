/-! Lexical rules. The bits of a rule are part of every packed table, and the lowest of them tells
the identifier rules from whitespace. -/
namespace LexicalRuns

inductive Rule where
  | whitespace
  | identifierStart
  | identifierPart
  deriving DecidableEq, Repr

namespace Rule

def all : List Rule := [.whitespace, .identifierStart, .identifierPart]

def bits : Rule → Nat
  | .whitespace => 0
  | .identifierStart => 1
  | .identifierPart => 3

/-- The rule with the given bits; `2` is not in use. -/
def ofBits? : Nat → Option Rule
  | 0 => some .whitespace
  | 1 => some .identifierStart
  | 3 => some .identifierPart
  | _ => none

/-- The bit that both identifier rules have and whitespace has not. -/
def identifierMask : Nat := 1

def isIdentifier (r : Rule) : Bool := r.bits &&& identifierMask != 0

/-- The name of a rule in documents and comments. -/
def name : Rule → String
  | .whitespace => "whitespace"
  | .identifierStart => "identifier_start"
  | .identifierPart => "identifier_part"

def ofName? (text : String) : Option Rule := all.find? (·.name = text)

/-- The name of a rule in messages and generated code. -/
def label : Rule → String
  | .whitespace => "Whitespace"
  | .identifierStart => "IdentifierStart"
  | .identifierPart => "IdentifierPart"

def optionLabel : Option Rule → String
  | none => "None"
  | some r => "Some(" ++ r.label ++ ")"

@[simp] theorem ofBits?_bits (r : Rule) : ofBits? r.bits = some r := by cases r <;> rfl

@[simp] theorem ofName?_name (r : Rule) : ofName? r.name = some r := by cases r <;> decide

theorem ofBits?_eq_some_iff {n : Nat} {r : Rule} : ofBits? n = some r ↔ n = r.bits := by
  constructor
  · intro h
    unfold ofBits? at h
    split at h
    · cases h; rfl
    · cases h; rfl
    · cases h; rfl
    · cases h
  · rintro rfl
    simp

theorem ofBits?_eq_none_iff {n : Nat} (small : n ≤ 3) : ofBits? n = none ↔ n = 2 := by
  have values : n = 0 ∨ n = 1 ∨ n = 2 ∨ n = 3 := by omega
  rcases values with rfl | rfl | rfl | rfl <;> simp [ofBits?]

theorem bits_le (r : Rule) : r.bits ≤ 3 := by cases r <;> decide

theorem bits_ne_two (r : Rule) : r.bits ≠ 2 := by cases r <;> decide

end Rule

end LexicalRuns
