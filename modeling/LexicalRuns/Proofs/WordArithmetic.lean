import LexicalRuns.Proofs.PackedRun

/-! Runs in 32-bit words. The fields of a run are words, and arithmetic on them traps where a result
does not fit a word instead of wrapping around. Checking any two words never traps and decides as
without a bound on numbers; neither does finding where an accepted run stops, nor packing it. -/
namespace LexicalRuns.Word

/-- Why work on words ends without a result. -/
inductive Trap where
  | overflow
  | fault (cause : Fault)
  deriving DecidableEq

def lift {α : Type} : Except Fault α → Except Trap α
  | .ok a => .ok a
  | .error cause => .error (.fault cause)

theorem lift_eq_ok_iff {α : Type} {outcome : Except Fault α} {a : α} :
    lift outcome = .ok a ↔ outcome = .ok a := by
  cases outcome <;> simp [lift]

def add (a b : UInt32) : Except Trap UInt32 :=
  if a.toNat + b.toNat < UInt32.size then .ok (a + b) else .error .overflow

def sub (a b : UInt32) : Except Trap UInt32 :=
  if b.toNat ≤ a.toNat then .ok (a - b) else .error .overflow

/-- No bit may be lost, and the shift must be smaller than a word. -/
def shiftLeft (a : UInt32) (shift : Nat) : Except Trap UInt32 :=
  if shift < 32 ∧ a.toNat <<< shift < UInt32.size then .ok (a <<< .ofNat shift)
  else .error .overflow

@[simp] theorem ok_bind {α β : Type} (a : α) (f : α → Except Trap β) :
    (Except.ok a >>= f : Except Trap β) = f a := rfl

theorem add_eq_ok {a b : UInt32} (fits : a.toNat + b.toNat < UInt32.size) :
    add a b = .ok (a + b) ∧ (a + b).toNat = a.toNat + b.toNat := by
  refine ⟨if_pos fits, ?_⟩
  rw [UInt32.toNat_add]
  exact Nat.mod_eq_of_lt fits

/-- Below a bound that is a word there is room for one more. -/
theorem add_one_eq_ok {a : UInt32} {bound : Nat} (below : a.toNat < bound)
    (word : bound < UInt32.size) : add a 1 = .ok (a + 1) ∧ (a + 1).toNat = a.toNat + 1 :=
  add_eq_ok (Nat.lt_of_le_of_lt below word)

theorem sub_eq_ok {a b : UInt32} (le : b.toNat ≤ a.toNat) :
    sub a b = .ok (a - b) ∧ (a - b).toNat = a.toNat - b.toNat :=
  ⟨if_pos le, UInt32.toNat_sub_of_le a b le⟩

theorem shiftLeft_eq_ok {a : UInt32} {shift : Nat} (small : shift < 32)
    (fits : a.toNat <<< shift < UInt32.size) : shiftLeft a shift = .ok (a <<< .ofNat shift) :=
  if_pos ⟨small, fits⟩

/-- The fields of a run, or of a stretch that may become one. -/
structure Fields where
  start : UInt32
  length : UInt32
  rule : Rule
  deriving DecidableEq

namespace Fields

def raw (f : Fields) : RawRun := ⟨f.start.toNat, f.length.toNat, f.rule⟩

def checkBounds (f : Fields) : Except Trap Unit :=
  if CodePoint.last < f.start.toNat then .error (.fault (.overflow .codePoint f.start.toNat))
  else if f.length.toNat = 0 ∨ Run.maxLength < f.length.toNat then
    .error (.fault (.overflow .runLength f.length.toNat))
  else do
    let reach ← sub f.length 1
    let final ← add f.start reach
    if CodePoint.last < final.toNat then
      .error (.fault (.outOfBounds f.start.toNat f.length.toNat))
    else .ok ()

def stop (f : Fields) : Except Trap UInt32 := add f.start f.length

def pack (f : Fields) : Except Trap UInt32 := do
  let length ← shiftLeft f.length Run.codePointBits
  let rule ← shiftLeft (.ofNat f.rule.bits) Run.ruleShift
  return f.start ||| length ||| rule

/-- No two words make the check trap: when it comes to adding, both are small. -/
theorem checkBounds_eq (f : Fields) :
    f.checkBounds = lift (Run.checkBounds f.start.toNat f.length.toNat) := by
  unfold checkBounds Run.checkBounds
  split
  next => rfl
  next inside =>
    split
    next => rfl
    next fits =>
      have one : (1 : UInt32).toNat = 1 := rfl
      obtain ⟨reach, value⟩ := sub_eq_ok (a := f.length) (b := 1) (by omega)
      have small : f.start.toNat + (f.length - 1).toNat < UInt32.size := by
        simp only [CodePoint.last, Run.maxLength, UInt32.size] at inside fits ⊢
        omega
      obtain ⟨final, sum⟩ := add_eq_ok small
      rw [reach, ok_bind, final, ok_bind, sum, value, one]
      split <;> rfl

theorem checkBounds_eq_ok_iff (f : Fields) :
    f.checkBounds = .ok () ↔ ∃ r : Run, r.raw = f.raw := by
  rw [checkBounds_eq, lift_eq_ok_iff, Run.checkBounds_eq_ok_iff]
  constructor
  · rintro ⟨positive, fits, inside⟩
    exact ⟨⟨f.start.toNat, f.length.toNat, f.rule, positive, fits, inside⟩, rfl⟩
  · rintro ⟨r, same⟩
    obtain ⟨start, length, _⟩ := RawRun.mk.inj same
    rw [← start, ← length]
    exact ⟨r.positive, r.fits, r.inside⟩

section Accepted

variable {f : Fields} {r : Run}

theorem exists_stop (same : r.raw = f.raw) : ∃ stop, f.stop = .ok stop ∧ stop.toNat = r.stop := by
  obtain ⟨start, length, _⟩ := RawRun.mk.inj same
  have inside := r.inside
  have small : f.start.toNat + f.length.toNat < UInt32.size := by
    rw [← start, ← length]
    simp only [CodePoint.count, UInt32.size] at inside ⊢
    omega
  obtain ⟨sum, value⟩ := add_eq_ok small
  exact ⟨_, sum, by rw [value, ← start, ← length, Run.stop]⟩

/-- The rule takes the two highest bits, and no field reaches into the next. -/
theorem pack_eq (same : r.raw = f.raw) : f.pack = .ok r.pack := by
  obtain ⟨start, length, rule⟩ := RawRun.mk.inj same
  have lengthSmall := r.length_lt
  have ruleSmall := r.rule.bits_le
  have lengthFits : f.length.toNat <<< Run.codePointBits < UInt32.size := by
    rw [← length, Run.codePointBits_eq]
    simp only [UInt32.size]
    omega
  have ruleFits : (UInt32.ofNat f.rule.bits).toNat <<< Run.ruleShift < UInt32.size := by
    rw [← rule, Run.ruleShift_eq, UInt32.toNat_ofNat']
    simp only [UInt32.size]
    omega
  rw [pack, shiftLeft_eq_ok (by decide) lengthFits, ok_bind, shiftLeft_eq_ok (by decide) ruleFits,
    ok_bind, r.pack_eq_or, start, length, rule, UInt32.ofNat_toNat, UInt32.ofNat_toNat]
  rfl

end Accepted

end Fields

end LexicalRuns.Word
