import LexicalRuns.Text.Hex
import Mathlib.Data.List.Forall2
import Mathlib.Data.Nat.Digits.Defs

/-! Hexadecimal numerals, read and written. A numeral is read if and only if its digits stand for a
number of 32 bits. The digits that are written have the value of the number that was written, for
their width is never less than the number needs. -/
namespace LexicalRuns.Text.Hex

def lowerAlphabet : List Char := "0123456789abcdef".toList

def upperAlphabet : List Char := "0123456789ABCDEF".toList

/-- The character is the digit with this value, in either case. -/
def IsDigit (c : Char) (d : Nat) : Prop := lowerAlphabet[d]? = some c ∨ upperAlphabet[d]? = some c

/-- A character is found again by its distance from one below. -/
theorem offset_of_le {first c last : Char} (low : first ≤ c) (high : c ≤ last) :
    c.toNat - first.toNat ≤ last.toNat - first.toNat ∧
      Char.ofNat (first.toNat + (c.toNat - first.toNat)) = c := by
  have above : first.toNat ≤ c.toNat := UInt32.le_iff_toNat_le.mp low
  have below : c.toNat ≤ last.toNat := UInt32.le_iff_toNat_le.mp high
  rw [Nat.add_sub_cancel' above, Char.ofNat_toNat]
  exact ⟨Nat.sub_le_sub_right below _, rfl⟩

theorem digitValue?_eq_some_iff {c : Char} {d : Nat} : digitValue? c = some d ↔ IsDigit c d := by
  constructor
  · intro found
    have decimals : ∀ n < 10, lowerAlphabet[n]? = some (Char.ofNat ('0'.toNat + n)) := by decide
    have lowers : ∀ n < 6, lowerAlphabet[n + 10]? = some (Char.ofNat ('a'.toNat + n)) := by decide
    have uppers : ∀ n < 6, upperAlphabet[n + 10]? = some (Char.ofNat ('A'.toNat + n)) := by decide
    unfold digitValue? at found
    split at found
    next range =>
      cases found
      obtain ⟨near, same⟩ := offset_of_le range.1 range.2
      exact .inl ((decimals _ (Nat.lt_succ_of_le near)).trans (congrArg some same))
    split at found
    next range =>
      cases found
      obtain ⟨near, same⟩ := offset_of_le range.1 range.2
      exact .inl ((lowers _ (Nat.lt_succ_of_le near)).trans (congrArg some same))
    split at found
    next range =>
      cases found
      obtain ⟨near, same⟩ := offset_of_le range.1 range.2
      exact .inr ((uppers _ (Nat.lt_succ_of_le near)).trans (congrArg some same))
    next => cases found
  · have reads : ∀ e < 16, lowerAlphabet[e]?.bind digitValue? = some e ∧
        upperAlphabet[e]?.bind digitValue? = some e := by decide
    rintro (lower | upper)
    · have small := (List.getElem?_eq_some_iff.mp lower).1
      simpa [lower] using (reads d small).1
    · have small := (List.getElem?_eq_some_iff.mp upper).1
      simpa [upper] using (reads d small).2

def HaveValues (digits : List Char) (values : List Nat) : Prop :=
  List.Forall₂ IsDigit digits values

/-- An optional plus sign and digits, at least one, that stand for a 32-bit number. -/
def Denotes (text : List Char) (n : Nat) : Prop :=
  ∃ digits values, (text = digits ∨ text = '+' :: digits) ∧ digits ≠ [] ∧
    HaveValues digits values ∧ Nat.ofDigits 16 values.reverse = n ∧ n < UInt32.size

def shift (n d : Nat) : Nat := 16 * n + d

theorem ofDigits_reverse (values : List Nat) :
    Nat.ofDigits 16 values.reverse = values.foldl shift 0 := by
  rw [Nat.ofDigits_eq_foldr, List.foldr_reverse]
  congr 1
  funext n d
  simp only [shift, Nat.cast_id]
  omega

theorem le_foldl_shift (values : List Nat) (n : Nat) : n ≤ values.foldl shift n := by
  induction values generalizing n with
  | nil => exact Nat.le_refl n
  | cons d rest ih =>
    have grown := ih (shift n d)
    have start : n ≤ shift n d := by simp only [shift]; omega
    exact Nat.le_trans start grown

theorem haveValues_cons_iff {c : Char} {rest : List Char} {values : List Nat} :
    HaveValues (c :: rest) values ↔
      ∃ d later, digitValue? c = some d ∧ HaveValues rest later ∧ values = d :: later := by
  simp only [digitValue?_eq_some_iff]
  exact List.forall₂_cons_left_iff

/-- A number that does not fit would not fit with more digits either. -/
theorem readDigits_eq_ok_iff {value : Nat} (small : value < UInt32.size) (text : List Char)
    (n : Nat) :
    readDigits value text = .ok n ↔
      ∃ values, HaveValues text values ∧ values.foldl shift value = n ∧ n < UInt32.size := by
  induction text generalizing value with
  | nil =>
    simp only [readDigits, Except.ok.injEq]
    constructor
    · rintro rfl
      exact ⟨[], .nil, rfl, small⟩
    · rintro ⟨_, ⟨⟩, rfl, _⟩
      rfl
  | cons c rest ih =>
    simp only [readDigits, haveValues_cons_iff]
    cases digit : digitValue? c with
    | none =>
      refine ⟨nofun, ?_⟩
      rintro ⟨_, ⟨d, later, ⟨⟩, _⟩, _⟩
    | some d =>
      simp only
      by_cases fits : 16 * value + d < UInt32.size
      · rw [if_pos fits, ih fits]
        constructor
        · rintro ⟨later, digits, number⟩
          exact ⟨d :: later, ⟨d, later, rfl, digits, rfl⟩, number⟩
        · rintro ⟨_, ⟨_, later, ⟨⟩, digits, rfl⟩, number⟩
          exact ⟨later, digits, number⟩
      · rw [if_neg fits]
        refine ⟨nofun, ?_⟩
        rintro ⟨_, ⟨_, later, ⟨⟩, _, rfl⟩, rfl, small⟩
        have grown := le_foldl_shift later (shift value d)
        exact absurd (Nat.lt_of_le_of_lt grown small) fits

theorem not_haveValues_plus (rest : List Char) (values : List Nat) :
    ¬HaveValues ('+' :: rest) values := by
  rw [haveValues_cons_iff]
  rintro ⟨d, _, digit, _⟩
  exact absurd digit (by simp [digitValue?])

theorem read_eq_ok_iff (text : List Char) (n : Nat) : read text = .ok n ↔ Denotes text n := by
  have plain (digits : List Char) :
      readDigits 0 digits = .ok n ↔ ∃ values, HaveValues digits values ∧
        Nat.ofDigits 16 values.reverse = n ∧ n < UInt32.size := by
    simp only [ofDigits_reverse]
    exact readDigits_eq_ok_iff (by decide) digits n
  unfold read
  split
  next =>
    refine ⟨nofun, ?_⟩
    rintro ⟨_, _, rfl | sign, some, _⟩
    · exact absurd rfl some
    · cases sign
  next =>
    refine ⟨nofun, ?_⟩
    rintro ⟨_, values, rfl | sign, some, digits, _⟩
    · exact absurd digits (not_haveValues_plus _ _)
    · cases sign
      exact absurd rfl some
  next rest alone =>
    rw [plain]
    constructor
    · rintro ⟨values, digits, number⟩
      exact ⟨rest, values, .inr rfl, alone, digits, number⟩
    · rintro ⟨_, values, rfl | sign, _, digits, number⟩
      · exact absurd digits (not_haveValues_plus _ _)
      · cases sign
        exact ⟨values, digits, number⟩
  next some _ unsigned =>
    rw [plain]
    constructor
    · rintro ⟨values, digits, number⟩
      exact ⟨text, values, .inl rfl, some, digits, number⟩
    · rintro ⟨_, values, rfl | sign, _, digits, number⟩
      · exact ⟨values, digits, number⟩
      · exact absurd sign (unsigned _)

/-! ### Digits that are written -/

theorem digitValue?_lowerDigit : ∀ d < 16, digitValue? (lowerDigit d) = some d := by decide

theorem digits_lt (width n : Nat) : ∀ d ∈ digits width n, d < 16 := by
  induction width generalizing n with
  | zero => exact List.forall_mem_nil _
  | succ width ih =>
    rw [digits, List.forall_mem_append, List.forall_mem_singleton]
    exact ⟨ih (n / 16), Nat.mod_lt n (by decide)⟩

/-- No digit is left out if nothing remains above them. -/
theorem ofDigits_digits {width n : Nat} (fits : n >>> (4 * width) = 0) :
    Nat.ofDigits 16 (digits width n).reverse = n := by
  induction width generalizing n with
  | zero => simpa [digits] using fits.symm
  | succ width ih =>
    have rest : (n / 16) >>> (4 * width) = 0 := by
      have split : 4 * (width + 1) = 4 + 4 * width := by omega
      rwa [split, Nat.shiftRight_add, Nat.shiftRight_eq_div_pow n 4] at fits
    rw [digits, List.reverse_append, List.reverse_singleton, List.singleton_append,
      Nat.ofDigits_cons, ih rest]
    exact Nat.mod_add_div n 16

theorem shiftRight_size {width n : Nat} (wide : size n ≤ width) : n >>> (4 * width) = 0 := by
  have bound : n.log2 + 1 ≤ 4 * width := by
    simp only [size] at wide
    omega
  exact Nat.shiftRight_eq_zero n _
    (Nat.lt_of_lt_of_le Nat.lt_log2_self (Nat.pow_le_pow_right (by decide) bound))

theorem size_le_eight {n : Nat} (word : n < UInt32.size) : size n ≤ 8 := by
  have bits : n.log2 < 32 := by
    rcases Nat.eq_zero_or_pos n with rfl | positive
    · decide
    · exact (Nat.log2_lt (Nat.ne_of_gt positive)).mpr word
  simp only [size]
  omega

theorem haveValues_lowerDigit (width n : Nat) :
    HaveValues ((digits width n).map lowerDigit) (digits width n) := by
  rw [HaveValues, List.forall₂_map_left_iff, List.forall₂_same]
  exact fun d member =>
    digitValue?_eq_some_iff.mp (digitValue?_lowerDigit d (digits_lt width n d member))

theorem exists_lower_eq {n : Nat} (word : n < UInt32.size) :
    ∃ text values, lower 8 n = String.ofList text ∧ text.length = 8 ∧ HaveValues text values ∧
      Nat.ofDigits 16 values.reverse = n := by
  have width : max 8 (size n) = 8 := Nat.max_eq_left (size_le_eight word)
  refine ⟨(digits 8 n).map lowerDigit, digits 8 n, ?_, by simp, haveValues_lowerDigit 8 n,
    ofDigits_digits (shiftRight_size (size_le_eight word))⟩
  rw [lower, width]

/-! ### Numerals -/

/-- The values of the digits of `n`, the most significant first. Beyond the given width no zero
stands in front. -/
structure Digits (width n : Nat) (values : List Nat) : Prop where
  small : ∀ d ∈ values, d < 16
  value : Nat.ofDigits 16 values.reverse = n
  wide : width ≤ values.length
  leading : width < values.length → values.head? ≠ some 0

/-- The numeral of `n`, with digits from an alphabet. -/
def Spells (alphabet : List Char) (width n : Nat) (text : List Char) : Prop :=
  ∃ values, Digits width n values ∧ text.map some = values.map (alphabet[·]?)

theorem Digits.lt {width n : Nat} {values : List Nat} (h : Digits width n values) :
    n < Nat.pow 16 values.length := by
  have bound := Nat.ofDigits_lt_base_pow_length (by decide : 1 < 16) (l := values.reverse)
    fun d member => h.small d (List.mem_reverse.mp member)
  rwa [h.value, List.length_reverse] at bound

theorem Digits.le {width n : Nat} {values : List Nat} (h : Digits width n values)
    (long : width < values.length) : Nat.pow 16 (values.length - 1) ≤ n := by
  obtain ⟨d, rest, rfl⟩ := List.exists_cons_of_length_pos (Nat.zero_lt_of_lt long)
  have positive : 0 < d := Nat.pos_of_ne_zero fun zero => h.leading long (congrArg some zero)
  have value := h.value
  rw [List.reverse_cons, Nat.ofDigits_append, Nat.ofDigits_singleton, List.length_reverse] at value
  calc Nat.pow 16 rest.length
    _ ≤ 16 ^ rest.length * d := Nat.le_mul_of_pos_right _ positive
    _ ≤ n := by omega

theorem Digits.length_le {width n : Nat} {values others : List Nat} (h : Digits width n values)
    (other : Digits width n others) : values.length ≤ others.length := by
  by_contra more
  have less : others.length < values.length := Nat.lt_of_not_le more
  have below := other.lt
  have above := h.le (Nat.lt_of_le_of_lt other.wide less)
  have powers : Nat.pow 16 others.length ≤ Nat.pow 16 (values.length - 1) :=
    Nat.pow_le_pow_right (by decide) (Nat.le_sub_one_of_lt less)
  omega

theorem Digits.unique {width n : Nat} {values others : List Nat} (h : Digits width n values)
    (other : Digits width n others) : values = others := by
  have same := Nat.le_antisymm (h.length_le other) (other.length_le h)
  apply List.reverse_injective
  apply Nat.ofDigits_inj_of_len_eq (by decide : 1 < 16)
  · rw [List.length_reverse, List.length_reverse, same]
  · exact fun d member => h.small d (List.mem_reverse.mp member)
  · exact fun d member => other.small d (List.mem_reverse.mp member)
  · rw [h.value, other.value]

theorem Spells.unique {alphabet : List Char} {width n : Nat} {text other : List Char}
    (spells : Spells alphabet width n text) (again : Spells alphabet width n other) :
    text = other := by
  obtain ⟨values, digits, spelled⟩ := spells
  obtain ⟨_, others, spelledAgain⟩ := again
  obtain rfl := digits.unique others
  exact List.map_injective_iff.mpr (Option.some_injective Char) (spelled.trans spelledAgain.symm)

/-- Without its first digit a number would lose something. -/
theorem pow_size_le {n : Nat} (positive : n ≠ 0) : Nat.pow 16 (size n - 1) ≤ n := by
  have four : (16 : Nat) = Nat.pow 2 4 := rfl
  have fewer : 4 * (size n - 1) ≤ n.log2 := by
    simp only [size]
    omega
  calc Nat.pow 16 (size n - 1)
    _ = Nat.pow 2 (4 * (size n - 1)) := by rw [four]; exact (Nat.pow_mul 2 4 _).symm
    _ ≤ Nat.pow 2 n.log2 := Nat.pow_le_pow_right (by decide) fewer
    _ ≤ n := Nat.log2_self_le positive

theorem ofDigits_zero_lt {rest : List Nat} (small : ∀ d ∈ rest, d < 16) :
    Nat.ofDigits 16 (0 :: rest).reverse < Nat.pow 16 rest.length := by
  have below := Nat.ofDigits_lt_base_pow_length (by decide : 1 < 16) (l := rest.reverse)
    fun d member => small d (List.mem_reverse.mp member)
  rw [List.reverse_cons, Nat.ofDigits_append, Nat.ofDigits_singleton, Nat.mul_zero, Nat.add_zero]
  rwa [List.length_reverse] at below

theorem digits_size {width : Nat} (some : 0 < width) (n : Nat) :
    Digits width n (digits (max width (size n)) n) where
  small := digits_lt _ n
  value := ofDigits_digits (shiftRight_size (Nat.le_max_right width (size n)))
  wide := by
    rw [length_digits]
    exact Nat.le_max_left width (size n)
  leading := by
    intro long zero
    rw [length_digits] at long
    obtain ⟨rest, front⟩ := List.head?_eq_some_iff.mp zero
    have value := ofDigits_digits (shiftRight_size (Nat.le_max_right width (size n)))
    have length := length_digits (max width (size n)) n
    have small : ∀ d ∈ rest, d < 16 := by
      intro d member
      apply digits_lt (max width (size n)) n
      rw [front]
      exact List.mem_cons_of_mem 0 member
    rw [front, List.length_cons] at length
    rw [front] at value
    have below := ofDigits_zero_lt small
    have nonzero : n ≠ 0 := by
      rintro rfl
      have one : size 0 = 1 := rfl
      omega
    have above := pow_size_le nonzero
    have places : size n - 1 = rest.length := by omega
    rw [value] at below
    rw [places] at above
    exact absurd below (Nat.not_lt.mpr above)

section Written

variable {alphabet : List Char} {write : Nat → Char}

theorem spells_digits (letters : ∀ d < 16, some (write d) = alphabet[d]?) {width : Nat}
    (some : 0 < width) (n : Nat) :
    Spells alphabet width n ((digits (max width (size n)) n).map write) := by
  refine ⟨_, digits_size some n, ?_⟩
  rw [List.map_map]
  exact List.map_congr_left fun d member => letters d (digits_lt _ n d member)

theorem spells_lower {width : Nat} (some : 0 < width) (n : Nat) :
    Spells lowerAlphabet width n (lower width n).toList := by
  rw [lower, String.toList_ofList]
  exact spells_digits (by decide) some n

theorem spells_upper {width : Nat} (some : 0 < width) (n : Nat) :
    Spells upperAlphabet width n (upper width n).toList := by
  rw [upper, String.toList_ofList]
  exact spells_digits (by decide) some n

theorem ofDigits_filterMap (reads : ∀ d < 16, digitValue? (write d) = some d) (width n : Nat) :
    Nat.ofDigits 16
      (((digits (max width (size n)) n).map write).filterMap digitValue?).reverse = n := by
  have values : ∀ d ∈ digits (max width (size n)) n, (digitValue? ∘ write) d = some d :=
    fun d member => reads d (digits_lt _ n d member)
  rw [List.filterMap_map, List.filterMap_congr values, List.filterMap_some]
  exact ofDigits_digits (shiftRight_size (Nat.le_max_right width (size n)))

end Written

theorem digitValue?_upperDigit : ∀ d < 16, digitValue? (upperDigit d) = some d := by decide

theorem lower_injective {width m n : Nat} (same : (lower width m).toList = (lower width n).toList) :
    m = n := by
  have written := congrArg (fun text => Nat.ofDigits 16 (text.filterMap digitValue?).reverse) same
  simpa only [lower, String.toList_ofList, ofDigits_filterMap digitValue?_lowerDigit] using written

theorem upper_injective {width m n : Nat} (same : (upper width m).toList = (upper width n).toList) :
    m = n := by
  have written := congrArg (fun text => Nat.ofDigits 16 (text.filterMap digitValue?).reverse) same
  simpa only [upper, String.toList_ofList, ofDigits_filterMap digitValue?_upperDigit] using written

theorem Spells.subset {alphabet : List Char} {width n : Nat} {text : List Char}
    (spells : Spells alphabet width n text) : text ⊆ alphabet := by
  obtain ⟨values, _, spelled⟩ := spells
  intro c member
  have written : some c ∈ values.map (alphabet[·]?) := spelled ▸ List.mem_map_of_mem member
  obtain ⟨d, _, letter⟩ := List.mem_map.mp written
  exact List.mem_of_getElem? letter

theorem Spells.number_eq {width m n : Nat} {text : List Char} (some : 0 < width)
    (spells : Spells lowerAlphabet width m text) (again : Spells lowerAlphabet width n text) :
    m = n := by
  have first := spells.unique (spells_lower some m)
  have second := again.unique (spells_lower some n)
  exact lower_injective (first.symm.trans second)

end LexicalRuns.Text.Hex
