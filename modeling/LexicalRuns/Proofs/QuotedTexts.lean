import LexicalRuns.Proofs.EncodedText
import LexicalRuns.Proofs.HexNumerals
import LexicalRuns.Text.Quoted

/-! Quoted texts and what they quote. A character that is escaped is told from all others whatever
comes after it, so that a message with a quoted text says exactly which text it was. -/
namespace LexicalRuns.Text

/-- The characters that have a letter of their own behind the backslash. -/
def escapeLetters : List (Char × Char) :=
  [('"', '"'), ('\\', '\\'), ('\t', 't'), ('\r', 'r'), ('\n', 'n'), ('\x00', '0')]

inductive Escapes : Char → List Char → Prop where
  | letter {c letter : Char} (known : (c, letter) ∈ escapeLetters) : Escapes c ['\\', letter]
  | number {c : Char} {digits : List Char} (other : ∀ letter, (c, letter) ∉ escapeLetters)
      (hidden : isUnprintable c = true)
      (numeral : Hex.Spells Hex.lowerAlphabet 1 c.toNat digits) :
      Escapes c ('\\' :: 'u' :: '\x7b' :: digits ++ ['\x7d'])
  | plain {c : Char} (other : ∀ letter, (c, letter) ∉ escapeLetters)
      (shown : isUnprintable c = false) : Escapes c [c]

/-- A text between quotes, each character in its turn. -/
def Quotes (text shown : String) : Prop :=
  ∃ pieces, List.Forall₂ Escapes text.toList pieces ∧
    shown.toList = '"' :: pieces.flatten ++ ['"']

theorem isUnprintable_eq_false {c : Char} (low : 0x20 ≤ c.toNat) (high : c.toNat < 0x7F) :
    isUnprintable c = false := by
  have apart : ∀ range ∈ unprintableRanges.toList, range.2 < 0x20 ∨ 0x7F ≤ range.1 := by
    decide +kernel
  rw [isUnprintable, Array.any_eq_false']
  intro range member
  rw [Bool.and_eq_true, decide_eq_true_eq, decide_eq_true_eq]
  have := apart range (Array.mem_toList_iff.mpr member)
  omega

/-- Of the characters from the space to the tilde, two are escaped. -/
theorem escapes_printable {c : Char} (low : 0x20 ≤ c.toNat) (high : c.toNat < 0x7F)
    (notQuote : c ≠ '"') (notBackslash : c ≠ '\\') : Escapes c [c] := by
  refine .plain (fun letter known => ?_) (isUnprintable_eq_false low high)
  have apart : ∀ p ∈ escapeLetters, p.1 = '"' ∨ p.1 = '\\' ∨ p.1.toNat < 0x20 := by decide
  rcases apart _ known with same | same | below
  · exact notQuote same
  · exact notBackslash same
  · exact absurd low (Nat.not_le.mpr below)

theorem escapes_escape (c : Char) : Escapes c (escape c) := by
  unfold escape
  by_cases known : ∃ letter, (c, letter) ∈ escapeLetters
  · obtain ⟨letter, known⟩ := known
    have escapes := Escapes.letter known
    simp only [escapeLetters, List.mem_cons, Prod.mk.injEq, List.not_mem_nil, or_false] at known
    rcases known with ⟨rfl, rfl⟩ | ⟨rfl, rfl⟩ | ⟨rfl, rfl⟩ | ⟨rfl, rfl⟩ | ⟨rfl, rfl⟩ | ⟨rfl, rfl⟩ <;>
      exact escapes
  · have other : ∀ letter, (c, letter) ∉ escapeLetters := not_exists.mp known
    have apart : ∀ p ∈ escapeLetters, c ≠ p.1 := by
      rintro p member rfl
      exact other p.2 member
    simp only [escapeLetters, List.forall_mem_cons, List.not_mem_nil, false_imp_iff, forall_const,
      and_true] at apart
    obtain ⟨quote, backslash, tab, carriageReturn, lineFeed, zero⟩ := apart
    rw [if_neg quote, if_neg backslash, if_neg tab, if_neg carriageReturn, if_neg lineFeed,
      if_neg zero]
    split
    next hidden => exact .number other hidden (Hex.spells_lower (by decide) c.toNat)
    next shown => exact .plain other (Bool.eq_false_iff.mpr shown)

namespace Escapes

variable {c d : Char} {x y s t : List Char}

theorem ne_nil (escapes : Escapes c x) : x ≠ [] := by
  cases escapes <;> exact List.cons_ne_nil _ _

theorem unique (first : Escapes c x) (second : Escapes c y) : x = y := by
  have letters : ∀ p ∈ escapeLetters, ∀ q ∈ escapeLetters, p.1 = q.1 → p.2 = q.2 := by decide
  cases first with
  | letter known =>
    cases second with
    | letter again =>
      obtain rfl := letters _ known _ again rfl
      rfl
    | number other => exact absurd known (other _)
    | plain other => exact absurd known (other _)
  | number other hidden numeral =>
    cases second with
    | letter known => exact absurd known (other _)
    | number _ _ again => rw [numeral.unique again]
    | plain _ shown => exact absurd hidden (Bool.eq_false_iff.mp shown)
  | plain other shown =>
    cases second with
    | letter known => exact absurd known (other _)
    | number _ hidden => exact absurd hidden (Bool.eq_false_iff.mp shown)
    | plain => rfl

/-- A backslash starts an escape. -/
theorem eq_plain (escapes : Escapes c x) (other : d ≠ '\\') (starts : x ++ s = d :: t) :
    c = d ∧ s = t := by
  cases escapes with
  | letter => exact absurd (List.cons.inj starts).1.symm other
  | number => exact absurd (List.cons.inj starts).1.symm other
  | plain => exact List.cons.inj starts

theorem append_inj (first : Escapes c x) (second : Escapes d y) (same : x ++ s = y ++ t) :
    c = d ∧ s = t := by
  have backslash {e : Char} (other : ∀ letter, (e, letter) ∉ escapeLetters) : e ≠ '\\' := by
    rintro rfl
    exact other '\\' (by decide)
  have letters : ∀ p ∈ escapeLetters, ∀ q ∈ escapeLetters, p.2 = q.2 → p.1 = q.1 := by decide
  have unlettered : ∀ p ∈ escapeLetters, p.2 ≠ 'u' := by decide
  cases first with
  | plain other =>
    obtain ⟨same, rest⟩ := second.eq_plain (backslash other) same.symm
    exact ⟨same.symm, rest.symm⟩
  | letter known =>
    cases second with
    | plain other => exact (Escapes.letter known).eq_plain (backslash other) same
    | letter again =>
      obtain ⟨_, tail⟩ := List.cons.inj same
      obtain ⟨rfl, rest⟩ := List.cons.inj tail
      exact ⟨letters _ known _ again rfl, rest⟩
    | number =>
      obtain ⟨_, tail⟩ := List.cons.inj same
      exact absurd (List.cons.inj tail).1 (unlettered _ known)
  | number other hidden numeral =>
    cases second with
    | plain others => exact (Escapes.number other hidden numeral).eq_plain (backslash others) same
    | letter known =>
      obtain ⟨_, tail⟩ := List.cons.inj same
      exact absurd (List.cons.inj tail).1.symm (unlettered _ known)
    | number _ _ again =>
      -- the closing brace is no digit, so it ends both numerals
      have brace : '\x7d' ∉ Hex.lowerAlphabet := by decide
      simp only [List.cons_append, List.append_assoc, List.cons.injEq, true_and,
        List.nil_append] at same
      obtain ⟨rfl, rest⟩ := eq_of_append_cons (fun member => brace (numeral.subset member))
        (fun member => brace (again.subset member)) same
      have number := numeral.number_eq (by decide) again
      exact ⟨Char.toNat_inj.mp number, rest⟩

end Escapes

theorem quotes_quote (text : String) : Quotes text (quote text) := by
  refine ⟨text.toList.map escape, ?_, ?_⟩
  · rw [List.forall₂_map_right_iff, List.forall₂_same]
    exact fun c _ => escapes_escape c
  · rw [quote, String.toList_ofList, List.flatMap_def]

theorem Quotes.unique {text shown again : String} (quotes : Quotes text shown)
    (others : Quotes text again) : shown = again := by
  obtain ⟨pieces, escapes, whole⟩ := quotes
  obtain ⟨more, escapesToo, wholeToo⟩ := others
  have alone : Relator.RightUnique Escapes := fun _ _ _ first second => first.unique second
  obtain rfl := List.right_unique_forall₂' alone escapes escapesToo
  exact String.toList_injective (whole.trans wholeToo.symm)

theorem eq_of_flatten_eq {a b : List Char} {pieces others : List (List Char)}
    (first : List.Forall₂ Escapes a pieces) (second : List.Forall₂ Escapes b others)
    (same : pieces.flatten = others.flatten) : a = b := by
  induction first generalizing b others with
  | nil =>
    cases second with
    | nil => rfl
    | cons escapes => exact absurd (List.append_eq_nil_iff.mp same.symm).1 escapes.ne_nil
  | cons escapes _ ih =>
    cases second with
    | nil => exact absurd (List.append_eq_nil_iff.mp same).1 escapes.ne_nil
    | cons other later =>
      obtain ⟨rfl, rest⟩ := escapes.append_inj other same
      rw [ih later rest]

theorem Quotes.text_eq {text other shown : String} (quotes : Quotes text shown)
    (again : Quotes other shown) : text = other := by
  obtain ⟨pieces, escapes, whole⟩ := quotes
  obtain ⟨more, escapesToo, wholeToo⟩ := again
  have inside := List.append_cancel_right (List.cons.inj (whole.symm.trans wholeToo)).2
  exact String.toList_injective (eq_of_flatten_eq escapes escapesToo inside)

end LexicalRuns.Text
