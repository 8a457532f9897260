/-! Finite non-negative binary64 numbers and rounding to the nearest of them. A number is
`mantissa * 2 ^ exponent` with a mantissa below `2 ^ 53`; unless the exponent is the least one,
`-1074`, the mantissa is also at least `2 ^ 52`, so that every value has one form. -/
namespace LexicalRuns.Decimal

structure Binary64 where
  mantissa : Nat
  exponent : Int
  deriving DecidableEq, Repr

namespace Binary64

def leastExponent : Int := -1074

def greatestExponent : Int := 971

def zero : Binary64 := ⟨0, leastExponent⟩

/-- A fraction; the denominator is never zero. -/
structure Fraction where
  num : Nat
  den : Nat
  deriving DecidableEq, Repr

/-- `f / 2 ^ e`. -/
def Fraction.scale (f : Fraction) (e : Int) : Fraction :=
  if e < 0 then ⟨f.num <<< e.natAbs, f.den⟩ else ⟨f.num, f.den <<< e.natAbs⟩

/-- The exponent of the greatest power of two that is not above `f`. -/
def Fraction.log2 (f : Fraction) : Int :=
  let guess : Int := (f.num.log2 : Int) - f.den.log2
  let scaled := f.scale guess
  if scaled.num < scaled.den then guess - 1 else guess

/-- The nearest integer, a half going to the even one. -/
def Fraction.nearest (f : Fraction) : Nat :=
  let whole := f.num / f.den
  let rest := f.num % f.den
  if f.den < 2 * rest ∨ (f.den = 2 * rest ∧ whole % 2 = 1) then whole + 1 else whole

/-- The number nearest to `f`, unless `f` is beyond the greatest one. -/
def ofFraction? (f : Fraction) : Option Binary64 :=
  if f.num = 0 then some zero
  else
    let exponent := max leastExponent (f.log2 - 52)
    let mantissa := (f.scale exponent).nearest
    let rounded : Binary64 :=
      if mantissa = 1 <<< 53 then ⟨1 <<< 52, exponent + 1⟩ else ⟨mantissa, exponent⟩
    if greatestExponent < rounded.exponent then none else some rounded

def toFraction (x : Binary64) : Fraction :=
  if x.exponent < 0 then ⟨x.mantissa, 1 <<< x.exponent.natAbs⟩
  else ⟨x.mantissa <<< x.exponent.natAbs, 1⟩

def ofNat? (n : Nat) : Option Binary64 := ofFraction? ⟨n, 1⟩

def mul? (x y : Binary64) : Option Binary64 :=
  let a := x.toFraction
  let b := y.toFraction
  ofFraction? ⟨a.num * b.num, a.den * b.den⟩

/-- The rounded quotient; the divisor is not zero. -/
def div? (x y : Binary64) : Option Binary64 :=
  let a := x.toFraction
  let b := y.toFraction
  ofFraction? ⟨a.num * b.den, a.den * b.num⟩

/-- `x` times the number nearest to `10 ^ e`. -/
def mulPower? (x : Binary64) (e : Nat) : Option Binary64 := (ofNat? (Nat.pow 10 e)).bind x.mul?

/-- `x` divided by the number nearest to `10 ^ e`. -/
def divPower? (x : Binary64) (e : Nat) : Option Binary64 := (ofNat? (Nat.pow 10 e)).bind x.div?

end Binary64

end LexicalRuns.Decimal
