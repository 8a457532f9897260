import LexicalRuns.Json.Fault

/-! Numerals and the numbers they stand for, as `serde_json` reads them by default. A numeral without
point and exponent is an integer of at most 64 bits. Every other one is a binary64 number: its digits
are collected in a 64-bit significand as far as they fit, the significand is rounded, and the result is
multiplied or divided by a rounded power of ten. -/
namespace LexicalRuns.Json

open Decimal (Binary64)

structure Exponent where
  negative : Bool
  digits : List Nat
  deriving DecidableEq, Repr

structure Numeral where
  negative : Bool
  whole : List Nat
  fraction : List Nat := []
  exponent : Option Exponent := none
  deriving DecidableEq, Repr

inductive Number where
  | integer (value : Int)
  | float (negative : Bool) (magnitude : Binary64)
  deriving DecidableEq, Repr

/-- Appends digits to a significand while it stays below `2 ^ 64`; the rest is left over. -/
def absorb : Nat → List Nat → Nat × List Nat
  | significand, [] => (significand, [])
  | significand, d :: rest =>
    if 10 * significand + d < UInt64.size then absorb (10 * significand + d) rest
    else (significand, d :: rest)

/-- The greatest power of ten that is multiplied or divided by in one step. -/
def greatestPower : Nat := 308

/-- `f / 10 ^ e`, in steps that round. -/
def scaleDown (f : Binary64) (e : Nat) : Option Binary64 :=
  if greatestPower < e then
    if f.mantissa = 0 then some f
    else (f.divPower? greatestPower).bind fun g => scaleDown g (e - greatestPower)
  else f.divPower? e
termination_by e
decreasing_by
  have : 0 < greatestPower := by decide
  omega

/-- `f * 10 ^ e`, if that is not beyond the greatest number. -/
def scaleUp (f : Binary64) (e : Nat) : Option Binary64 :=
  if greatestPower < e then if f.mantissa = 0 then some f else none
  else f.mulPower? e

/-- The number nearest to `significand * 10 ^ e` that is reached by scaling. -/
def scaled? (significand : Nat) (e : Int) : Option Binary64 :=
  (Binary64.ofNat? significand).bind fun f =>
    if e < 0 then scaleDown f e.natAbs else scaleUp f e.natAbs

def digitsValue (digits : List Nat) : Nat := digits.foldl (fun n d => 10 * n + d) 0

/-- A number beyond the greatest one is a defect of the text. -/
def orMalformed (negative : Bool) : Option Binary64 → Except Defect Number
  | none => .error .malformed
  | some f => .ok (.float negative f)

/-- The value of a numeral with a significand `10 ^ shift` times too small. -/
def floatValue (negative : Bool) (significand : Nat) (shift : Int) :
    Option Exponent → Except Defect Number
  | none => orMalformed negative (scaled? significand shift)
  | some e =>
    let size := digitsValue e.digits
    if size < 0x80000000 then
      orMalformed negative
        (scaled? significand (if e.negative then shift - size else shift + size))
    else if significand ≠ 0 ∧ !e.negative then .error .malformed
    else .ok (.float negative .zero)

/-- Minus zero and a numeral below `-2 ^ 63` are not integers. -/
def integerValue (negative : Bool) (significand : Nat) : Except Defect Number :=
  if !negative then .ok (.integer significand)
  else if significand = 0 ∨ 0x8000000000000000 < significand then
    orMalformed negative (scaled? significand 0)
  else .ok (.integer (-significand))

/-- Digits of the fraction count down from the point, digits left over before it count up. -/
def Numeral.value (n : Numeral) : Except Defect Number :=
  let (head, unread) := absorb 0 n.whole
  if unread = [] ∧ n.fraction = [] ∧ n.exponent = none then integerValue n.negative head
  else
    let (significand, ignored) := absorb head n.fraction
    let shift : Int := unread.length - (n.fraction.length - ignored.length : Nat)
    floatValue n.negative significand shift n.exponent

def Number.found : Number → Found
  | .integer value => .integer value
  | .float negative magnitude => .float negative magnitude

end LexicalRuns.Json
