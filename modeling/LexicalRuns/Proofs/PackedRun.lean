import LexicalRuns.Run

/-! Packed runs. The bits of a word are three fields beside each other: the first code point in 21
bits from the lowest on, the length in 9, the rule in 2. Each value fits its field, so that nothing
is lost when a run is packed; and the fields fill the word, so that a run has one packed form and no
other word unpacks to it. Unpacking refuses the rule bits that no rule has, and otherwise asks of
the fields what is asked of every run. -/
namespace LexicalRuns.Run

/-- The `width` bits of a word from `low` on, as a number. -/
def slice (word : UInt32) (low width : Nat) : Nat := (word.toBitVec.extractLsb' low width).toNat

theorem slice_eq (word : UInt32) (low width : Nat) :
    slice word low width = (word.toNat >>> low) % (1 <<< width) := by
  rw [slice, BitVec.extractLsb'_toNat, UInt32.toNat_toBitVec, Nat.shiftLeft_eq, Nat.one_mul]

theorem toNat_eq_slices (word : UInt32) :
    word.toNat = slice word 0 21 + (slice word 21 9 <<< 21) + (slice word 30 2 <<< 30) := by
  have small := word.toNat_lt
  simp only [slice_eq, Nat.reduceShiftLeft]
  omega

theorem codePointBits_eq : codePointBits = 21 := rfl
theorem lengthBits_eq : lengthBits = 9 := rfl
theorem ruleShift_eq : ruleShift = 30 := rfl

theorem start_lt (r : Run) : r.start < 2097152 := by
  have positive := r.positive
  have inside := r.inside
  simp only [CodePoint.count] at inside
  omega

theorem length_lt (r : Run) : r.length < 512 := by
  have fits := r.fits
  simp only [maxLength] at fits
  omega

theorem toNat_pack (r : Run) :
    r.pack.toNat = r.start + (r.length <<< 21) + (r.rule.bits <<< 30) := by
  have start := r.start_lt
  have length := r.length_lt
  have rule := r.rule.bits_le
  simp only [pack, UInt32.toNat_ofNat', codePointBits_eq, ruleShift_eq]
  omega

theorem toNat_shiftLeft_ofNat {n shift : Nat} (shifts : shift < 32)
    (small : n <<< shift < UInt32.size) :
    (UInt32.ofNat n <<< UInt32.ofNat shift).toNat = n <<< shift := by
  have least : n ≤ n <<< shift := by
    rw [Nat.shiftLeft_eq]
    exact Nat.le_mul_of_pos_right n (Nat.two_pow_pos shift)
  rw [UInt32.toNat_shiftLeft, UInt32.toNat_ofNat_of_lt' (Nat.lt_of_le_of_lt least small),
    UInt32.toNat_ofNat_of_lt' (Nat.lt_trans shifts (by decide)), Nat.mod_eq_of_lt shifts]
  exact Nat.mod_eq_of_lt small

/-- Packing puts each value into its own field, with no bit in common. -/
theorem pack_eq_or (r : Run) :
    r.pack = UInt32.ofNat r.start ||| (UInt32.ofNat r.length <<< 21) |||
      (UInt32.ofNat r.rule.bits <<< 30) := by
  have start := r.start_lt
  have length := r.length_lt
  have rule := r.rule.bits_le
  have low : r.start + (r.length <<< 21) = r.start ||| (r.length <<< 21) := by
    rw [Nat.add_comm, Nat.or_comm]
    exact Nat.shiftLeft_add_eq_or_of_lt start r.length
  have high : r.start + (r.length <<< 21) + (r.rule.bits <<< 30) =
      (r.start + (r.length <<< 21)) ||| (r.rule.bits <<< 30) := by
    rw [Nat.add_comm, Nat.or_comm]
    exact Nat.shiftLeft_add_eq_or_of_lt (by omega) r.rule.bits
  have startWord : (UInt32.ofNat r.start).toNat = r.start :=
    UInt32.toNat_ofNat_of_lt' (Nat.lt_trans start (by decide))
  have lengthWord : (UInt32.ofNat r.length <<< 21).toNat = r.length <<< 21 :=
    toNat_shiftLeft_ofNat (by decide) (by simp only [UInt32.size]; omega)
  have ruleWord : (UInt32.ofNat r.rule.bits <<< 30).toNat = r.rule.bits <<< 30 :=
    toNat_shiftLeft_ofNat (by decide) (by simp only [UInt32.size]; omega)
  apply UInt32.toNat.inj
  rw [toNat_pack, high, low, UInt32.toNat_or, UInt32.toNat_or, startWord, lengthWord, ruleWord]

theorem slice_pack (r : Run) :
    slice r.pack 0 21 = r.start ∧ slice r.pack 21 9 = r.length ∧
      slice r.pack 30 2 = r.rule.bits := by
  have start := r.start_lt
  have length := r.length_lt
  have rule := r.rule.bits_le
  simp only [slice_eq, toNat_pack, Nat.reduceShiftLeft]
  omega

theorem shiftRight_ruleShift (word : UInt32) : word.toNat >>> ruleShift = slice word 30 2 := by
  have small := word.toNat_lt
  simp only [slice_eq, ruleShift_eq, Nat.reduceShiftLeft]
  omega

/-- The rule bits decide first; then the other fields are checked as those of any run. -/
theorem unpack_of_rule {word : UInt32} {rule : Rule} (known : slice word 30 2 = rule.bits) :
    unpack word = RawRun.check ⟨slice word 0 21, slice word 21 9, rule⟩ := by
  simp only [unpack, shiftRight_ruleShift, known, Rule.ofBits?_bits, slice_eq, codePointBits_eq,
    lengthBits_eq, Nat.shiftRight_zero]

theorem unpack_of_unused {word : UInt32} (unused : slice word 30 2 = 2) :
    unpack word = .error (.artifact (.unusedRule word)) := by
  simp only [unpack, shiftRight_ruleShift, unused, Rule.ofBits?]

theorem slice_rule_le (word : UInt32) : slice word 30 2 ≤ 3 := by
  simp only [slice_eq, Nat.reduceShiftLeft]
  omega

theorem exists_rule {word : UInt32} (used : slice word 30 2 ≠ 2) :
    ∃ rule : Rule, slice word 30 2 = rule.bits := by
  cases found : Rule.ofBits? (slice word 30 2) with
  | none => exact absurd ((Rule.ofBits?_eq_none_iff (slice_rule_le word)).mp found) used
  | some rule => exact ⟨rule, Rule.ofBits?_eq_some_iff.mp found⟩

theorem unpack_eq_ok_iff {word : UInt32} {r : Run} :
    unpack word = .ok r ↔
      slice word 0 21 = r.start ∧ slice word 21 9 = r.length ∧ slice word 30 2 = r.rule.bits := by
  constructor
  · intro unpacked
    by_cases unused : slice word 30 2 = 2
    · rw [unpack_of_unused unused] at unpacked
      cases unpacked
    · obtain ⟨rule, known⟩ := exists_rule unused
      rw [unpack_of_rule known, RawRun.check_eq_ok_iff, raw, RawRun.mk.injEq] at unpacked
      obtain ⟨start, length, same⟩ := unpacked
      exact ⟨start.symm, length.symm, same ▸ known⟩
  · intro fields
    obtain ⟨start, length, known⟩ := fields
    rw [unpack_of_rule known, start, length]
    exact RawRun.check_eq_ok_iff.mpr rfl

theorem unpack_pack (r : Run) : unpack r.pack = .ok r := unpack_eq_ok_iff.mpr r.slice_pack

/-- A word that unpacks is the packed run: there are no spare bits in which it could differ. -/
theorem pack_of_unpack {word : UInt32} {r : Run} (unpacked : unpack word = .ok r) :
    r.pack = word := by
  obtain ⟨start, length, rule⟩ := unpack_eq_ok_iff.mp unpacked
  apply UInt32.toNat.inj
  rw [toNat_pack, toNat_eq_slices word, start, length, rule]

/-- Of the words whose rule bits are in use, those with no length are refused, and those whose run
would start or end beyond the last code point. -/
theorem exists_unpack_iff (word : UInt32) :
    (∃ r, unpack word = .ok r) ↔
      slice word 30 2 ≠ 2 ∧ slice word 21 9 ≠ 0 ∧ slice word 0 21 ≤ CodePoint.last ∧
        slice word 0 21 + slice word 21 9 ≤ CodePoint.count := by
  constructor
  · intro unpacked
    obtain ⟨r, unpacked⟩ := unpacked
    obtain ⟨start, length, rule⟩ := unpack_eq_ok_iff.mp unpacked
    have positive := r.positive
    have inside := r.inside
    have used := r.rule.bits_ne_two
    simp only [CodePoint.last, CodePoint.count] at inside ⊢
    omega
  · intro h
    obtain ⟨used, long, _, inside⟩ := h
    obtain ⟨rule, known⟩ := exists_rule used
    have fits : slice word 21 9 ≤ maxLength := by
      simp only [slice_eq, maxLength, Nat.reduceShiftLeft]
      omega
    let r : Run := ⟨slice word 0 21, slice word 21 9, rule, Nat.pos_of_ne_zero long, fits, inside⟩
    exact ⟨r, unpack_eq_ok_iff.mpr ⟨rfl, rfl, known⟩⟩

/-- A run lies in its word as three fields beside each other and comes back from it. Any word is
refused for the rule bits that no rule has, or else for what is wrong with its fields; and a run
that comes from a word packs into that word. -/
theorem unpack_exact :
    (∀ r : Run,
      r.pack = UInt32.ofNat r.start ||| (UInt32.ofNat r.length <<< 21) |||
        (UInt32.ofNat r.rule.bits <<< 30) ∧
      unpack r.pack = .ok r) ∧
    ∀ word : UInt32,
      (slice word 30 2 = 0b10 → unpack word = .error (.artifact (.unusedRule word))) ∧
      (slice word 30 2 ≠ 0b10 → ∃ rule : Rule, slice word 30 2 = rule.bits ∧
        unpack word = RawRun.check ⟨slice word 0 21, slice word 21 9, rule⟩) ∧
      ((∃ r, unpack word = .ok r) ↔
        slice word 30 2 ≠ 0b10 ∧ slice word 21 9 ≠ 0 ∧ slice word 0 21 ≤ CodePoint.last ∧
          slice word 0 21 + slice word 21 9 ≤ CodePoint.count) ∧
      ∀ r, unpack word = .ok r → r.pack = word := by
  refine ⟨fun r => ⟨r.pack_eq_or, r.unpack_pack⟩, fun word =>
    ⟨unpack_of_unused, fun used => ?_, exists_unpack_iff word, fun r => pack_of_unpack⟩⟩
  obtain ⟨rule, known⟩ := exists_rule used
  exact ⟨rule, known, unpack_of_rule known⟩

/-- The rule bits that no rule has; the twenty-six letters from `A` on; the last code point with a
length that leads beyond it. -/
theorem unpack_exact_words :
    (slice 0x80200041 30 2 = 0b10 ∧
      unpack 0x80200041 = .error (.artifact (.unusedRule 0x80200041))) ∧
    (∃ r, unpack 0x43400041 = .ok r ∧ r.pack = 0x43400041) ∧
    slice 0xC050FFFF 30 2 ≠ 0b10 ∧
      (∃ rule : Rule, slice 0xC050FFFF 30 2 = rule.bits ∧
        unpack 0xC050FFFF = RawRun.check ⟨0x10FFFF, 2, rule⟩) ∧
      ¬∃ r, unpack 0xC050FFFF = .ok r := by
  have unused : slice 0x80200041 30 2 = 0b10 := by decide
  have used : slice 0xC050FFFF 30 2 ≠ 0b10 := by decide
  have beyond : ¬slice 0xC050FFFF 0 21 + slice 0xC050FFFF 21 9 ≤ CodePoint.count := by decide
  obtain ⟨refused, _⟩ := unpack_exact.2 0x80200041
  obtain ⟨_, _, accepted, packed⟩ := unpack_exact.2 0x43400041
  obtain ⟨_, checked, decided, _⟩ := unpack_exact.2 0xC050FFFF
  obtain ⟨r, letters⟩ := accepted.mpr (by decide)
  exact ⟨⟨unused, refused unused⟩, ⟨r, letters, packed r letters⟩, used, checked used,
    fun h => beyond (decided.mp h).2.2.2⟩

end LexicalRuns.Run
