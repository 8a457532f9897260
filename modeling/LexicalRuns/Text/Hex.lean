/-! Hexadecimal numerals. Writing pads with zeros up to a width and never cuts a digit off.
Reading takes digits of either case after an optional plus sign, goes from left to right and
reports the first character that is no digit or no longer fits a 32-bit number. -/
namespace LexicalRuns.Text.Hex

def digitValue? (c : Char) : Option Nat :=
  if '0' ≤ c ∧ c ≤ '9' then some (c.toNat - '0'.toNat)
  else if 'a' ≤ c ∧ c ≤ 'f' then some (c.toNat - 'a'.toNat + 10)
  else if 'A' ≤ c ∧ c ≤ 'F' then some (c.toNat - 'A'.toNat + 10)
  else none

def lowerDigit (d : Nat) : Char :=
  if d < 10 then Char.ofNat ('0'.toNat + d) else Char.ofNat ('a'.toNat + (d - 10))

def upperDigit (d : Nat) : Char :=
  if d < 10 then Char.ofNat ('0'.toNat + d) else Char.ofNat ('A'.toNat + (d - 10))

/-- The last `width` hexadecimal digits of `n`, most significant first. -/
def digits : Nat → Nat → List Nat
  | 0, _ => []
  | width + 1, n => digits width (n / 16) ++ [n % 16]

/-- How many digits `n` has; zero has one. -/
def size (n : Nat) : Nat := n.log2 / 4 + 1

/-- `n` in lower case with at least `width` digits. -/
def lower (width n : Nat) : String :=
  String.ofList ((digits (max width (size n)) n).map lowerDigit)

/-- `n` in upper case with at least `width` digits. -/
def upper (width n : Nat) : String :=
  String.ofList ((digits (max width (size n)) n).map upperDigit)

inductive Fault where
  | empty
  | invalidDigit
  | tooLarge
  deriving DecidableEq, Repr

def Fault.message : Fault → String
  | .empty => "cannot parse integer from empty string"
  | .invalidDigit => "invalid digit found in string"
  | .tooLarge => "number too large to fit in target type"

def readDigits : Nat → List Char → Except Fault Nat
  | value, [] => .ok value
  | value, c :: rest =>
    match digitValue? c with
    | none => .error .invalidDigit
    | some d =>
      if 16 * value + d < UInt32.size then readDigits (16 * value + d) rest else .error .tooLarge

/-- Reads a 32-bit number; a sign alone is an invalid digit. -/
def read : List Char → Except Fault Nat
  | [] => .error .empty
  | ['+'] => .error .invalidDigit
  | '+' :: rest => readDigits 0 rest
  | text => readDigits 0 text

@[simp] theorem length_digits (width n : Nat) : (digits width n).length = width := by
  induction width generalizing n with
  | zero => rfl
  | succ width ih => simp [digits, ih]

end LexicalRuns.Text.Hex
