import LexicalRuns.Decimal.Binary64

/-! The shortest decimal that reads back as a given binary64 number, and its text. Among decimals
with as few digits the nearest one is taken. The text is positional when the decimal point falls
at most sixteen places after the first digit or four places before it, and scientific
otherwise. -/
namespace LexicalRuns.Decimal

/-- The number `0.d₁d₂… * 10 ^ point`. -/
structure Digits where
  digits : List Nat
  point : Int
  deriving DecidableEq, Repr

def natDigits (n : Nat) : List Nat := (Nat.toDigits 10 n).map fun c => c.toNat - '0'.toNat

/-- `n * 10 ^ e` without the zeros at the end of `n`. -/
def Digits.ofScaled (n : Nat) (e : Int) : Digits :=
  let all := natDigits n
  ⟨(all.reverse.dropWhile (· = 0)).reverse, all.length + e⟩

namespace Binary64

/-- The ends of the interval of numbers that round to `x`, in units of `2 ^ (exponent - 2)`. -/
def roundingLower (x : Binary64) : Nat :=
  if x.mantissa = 1 <<< 52 ∧ leastExponent < x.exponent then 4 * x.mantissa - 1
  else 4 * x.mantissa - 2

def roundingUpper (x : Binary64) : Nat := 4 * x.mantissa + 2

/-- `x` lies in the interval if `n * 10 ^ e` rounds to it; the ends count for an even mantissa. -/
def readsBack (x : Binary64) (n : Nat) (e : Int) : Bool :=
  let decimal : Fraction :=
    if e < 0 then ⟨n, Nat.pow 10 e.natAbs⟩ else ⟨n * Nat.pow 10 e.natAbs, 1⟩
  let f := decimal.scale (x.exponent - 2)
  let low := x.roundingLower * f.den
  let high := x.roundingUpper * f.den
  if x.mantissa % 2 = 0 then low ≤ f.num && f.num ≤ high else low < f.num && f.num < high

/-- The exponent of the least power of ten that is above `x`. -/
def decimalPoint (x : Binary64) : Int :=
  let f := x.toFraction
  if f.den ≤ f.num then ((natDigits (f.num / f.den)).length : Int)
  else
    let inverse := natDigits ((f.den - 1) / f.num)
    1 - (inverse.length : Int)

/-- The best decimal with `size` digits, if one of them reads back as `x`. -/
def withDigits? (x : Binary64) (size : Nat) : Option Digits :=
  let e := x.decimalPoint - size
  let f := x.toFraction
  let grid : Fraction :=
    if e < 0 then ⟨f.num * Nat.pow 10 e.natAbs, f.den⟩
    else ⟨f.num, f.den * Nat.pow 10 e.natAbs⟩
  let below := grid.num / grid.den
  let nearest := grid.nearest
  let other := if nearest = below then below + 1 else below
  if x.readsBack nearest e then some (.ofScaled nearest e)
  else if x.readsBack other e then some (.ofScaled other e)
  else none

/-- Seventeen digits are always enough. -/
def shortest (x : Binary64) : Digits :=
  ((List.range' 1 17).findSome? x.withDigits?).getD ⟨[], 0⟩

end Binary64

def digitText (digits : List Nat) : String :=
  String.ofList (digits.map fun d => Char.ofNat ('0'.toNat + d))

def zeros (n : Nat) : String := String.ofList (List.replicate n '0')

/-- An exponent always has its sign, and no more digits than it needs. -/
def exponentText (e : Int) : String := (if e < 0 then "e-" else "e+") ++ toString e.natAbs

def Digits.text (d : Digits) : String :=
  let size : Int := d.digits.length
  if size ≤ d.point ∧ d.point ≤ 16 then
    digitText d.digits ++ zeros (d.point - size).toNat ++ ".0"
  else if 0 < d.point ∧ d.point ≤ 16 then
    digitText (d.digits.take d.point.toNat) ++ "." ++ digitText (d.digits.drop d.point.toNat)
  else if -5 < d.point ∧ d.point ≤ 0 then
    "0." ++ zeros (-d.point).toNat ++ digitText d.digits
  else
    let fraction := d.digits.drop 1
    digitText (d.digits.take 1) ++ (if fraction = [] then "" else "." ++ digitText fraction) ++
      exponentText (d.point - 1)

def Binary64.text (negative : Bool) (x : Binary64) : String :=
  (if negative then "-" else "") ++ (if x.mantissa = 0 then "0.0" else x.shortest.text)

end LexicalRuns.Decimal
