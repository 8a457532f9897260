import LexicalRuns.Fault

/-! Runs: stretches of code points with one rule, short enough to be packed into a 32-bit word. A
run is never empty and never leaves the code point space. -/
namespace LexicalRuns

namespace Run

def maxLength : Nat := 511

end Run

@[ext] structure Run where
  start : Nat
  length : Nat
  rule : Rule
  positive : 0 < length
  fits : length ≤ Run.maxLength
  inside : start + length ≤ CodePoint.count
  deriving DecidableEq, Repr

/-- A run as it is written down, with nothing checked. -/
structure RawRun where
  start : Nat
  length : Nat
  rule : Rule
  deriving DecidableEq, Repr

namespace Run

/-- Checks the fields from left to right and then the end of the run. -/
def checkBounds (start length : Nat) : Except Fault Unit :=
  if CodePoint.last < start then .error (.overflow .codePoint start)
  else if length = 0 ∨ maxLength < length then .error (.overflow .runLength length)
  else if CodePoint.last < start + (length - 1) then .error (.outOfBounds start length)
  else .ok ()

theorem checkBounds_eq_ok_iff {start length : Nat} :
    checkBounds start length = .ok () ↔
      0 < length ∧ length ≤ maxLength ∧ start + length ≤ CodePoint.count := by
  have count : CodePoint.count = CodePoint.last + 1 := rfl
  unfold checkBounds
  split
  · simp; omega
  split
  · simp; omega
  split
  · simp; omega
  · simp; omega

def stop (r : Run) : Nat := r.start + r.length

def contains (r : Run) (c : Nat) : Bool := r.start ≤ c && c < r.stop

def raw (r : Run) : RawRun := ⟨r.start, r.length, r.rule⟩

end Run

def RawRun.check (r : RawRun) : Except Fault Run :=
  match h : Run.checkBounds r.start r.length with
  | .error fault => .error fault
  | .ok () =>
    have valid := Run.checkBounds_eq_ok_iff.mp h
    .ok ⟨r.start, r.length, r.rule, valid.1, valid.2.1, valid.2.2⟩

theorem RawRun.check_eq_ok_iff {r : RawRun} {run : Run} : r.check = .ok run ↔ run.raw = r := by
  unfold RawRun.check
  split
  next fault failed =>
    refine ⟨nofun, ?_⟩
    rintro rfl
    have passed := Run.checkBounds_eq_ok_iff.mpr ⟨run.positive, run.fits, run.inside⟩
    simp [Run.raw, passed] at failed
  next passed =>
    constructor
    · rintro ⟨⟩
      rfl
    · rintro rfl
      rfl

namespace Run

/-- The fields from the lowest bit up: code point, length, rule. -/
def codePointBits : Nat := Field.codePoint.bits

def lengthBits : Nat := Field.runLength.bits

def ruleBits : Nat := 2

def ruleShift : Nat := codePointBits + lengthBits

def pack (r : Run) : UInt32 :=
  .ofNat (r.start + (r.length <<< codePointBits) + (r.rule.bits <<< ruleShift))

def unpack (word : UInt32) : Except Fault Run :=
  let n := word.toNat
  match Rule.ofBits? (n >>> ruleShift) with
  | none => .error (.artifact (.unusedRule word))
  | some rule =>
    RawRun.check ⟨n % (1 <<< codePointBits), (n >>> codePointBits) % (1 <<< lengthBits), rule⟩

end Run

end LexicalRuns
