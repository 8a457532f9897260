import LexicalRuns.Json.Content
import LexicalRuns.Proofs.EncodedText
import LexicalRuns.Proofs.HexNumerals

/-! Tokens as they are spelled. Bytes spell tokens if they are read as these tokens whatever comes
after them, so that the tokens of a text can be put together from those of its parts. A numeral has
no end of its own: it is read together with the token after it. -/
namespace LexicalRuns.Json

/-- Tokens read before make no difference to those that follow. -/
theorem tokensFrom_append (before after : List Token) (bytes : List UInt8) :
    tokensFrom (before ++ after) bytes = after.reverse ++ tokensFrom before bytes := by
  fun_induction tokensFrom before bytes with
  | case1 before => simp [tokensFrom]
  | case2 before b rest space ih => rw [tokensFrom, if_pos space, ih]
  | case3 before b rest visible scanned ih =>
    rw [tokensFrom, if_neg visible]
    exact ih

@[simp] theorem tokens_nil : tokens [] = [] := by simp [tokens, tokensFrom]

theorem tokens_of_isSpace {b : UInt8} (space : isSpace b = true) (rest : List UInt8) :
    tokens (b :: rest) = tokens rest := by
  rw [tokens, tokensFrom, if_pos space, tokens]

theorem tokens_of_scanToken {b : UInt8} {rest tail : List UInt8} {t : Token}
    (visible : isSpace b = false) (scanned : scanToken b rest = (t, tail)) :
    tokens (b :: rest) = t :: tokens tail := by
  rw [tokens, tokensFrom, if_neg (Bool.not_eq_true _ ▸ visible)]
  simp only [scanned]
  exact tokensFrom_append [] [t] tail

/-- The bytes are read as these tokens, whatever comes after them. -/
def Spells (bytes : List UInt8) (ts : List Token) : Prop :=
  ∀ rest, tokens (bytes ++ rest) = ts ++ tokens rest

namespace Spells

variable {bytes more : List UInt8} {ts us : List Token}

theorem append (first : Spells bytes ts) (second : Spells more us) :
    Spells (bytes ++ more) (ts ++ us) := by
  intro rest
  rw [List.append_assoc, first, second, List.append_assoc]

theorem whole (spells : Spells bytes ts) : tokens bytes = ts := by
  have alone := spells []
  rwa [List.append_nil, tokens_nil, List.append_nil] at alone

theorem blank (spaces : bytes.all isSpace = true) : Spells bytes [] := by
  intro rest
  induction bytes with
  | nil => rfl
  | cons b later ih =>
    rw [List.all_cons, Bool.and_eq_true] at spaces
    obtain ⟨space, spaces⟩ := spaces
    rw [List.cons_append, tokens_of_isSpace space, ih spaces]

theorem single {b : UInt8} {t : Token} (visible : isSpace b = false)
    (scanned : ∀ rest, scanToken b rest = (t, rest)) : Spells [b] [t] :=
  fun rest => tokens_of_scanToken visible (scanned rest)

end Spells

/-! ### Strings -/

/-- A byte that stands for itself in a string. -/
def isPlain (b : UInt8) : Bool := b != 0x22 && b != 0x5C && 0x20 ≤ b

/-- The letters behind a backslash that stand for one byte, with that byte. -/
def escapes : List (UInt8 × UInt8) :=
  [(0x22, 0x22), (0x5C, 0x5C), (0x2F, 0x2F), (0x62, 0x08), (0x66, 0x0C), (0x6E, 0x0A), (0x72, 0x0D),
    (0x74, 0x09)]

theorem escaped?_eq_some_iff {letter b : UInt8} :
    escaped? letter = some b ↔ (letter, b) ∈ escapes := by
  constructor
  · intro found
    have known : (List.range 256).all fun n =>
        (escaped? (.ofNat n)).all fun b => (UInt8.ofNat n, b) ∈ escapes := by decide +kernel
    have here := List.all_eq_true.mp known letter.toNat (List.mem_range.mpr letter.toNat_lt)
    rw [UInt8.ofNat_toNat, found] at here
    exact of_decide_eq_true here
  · intro member
    have stands : escapes.all fun p => escaped? p.1 = some p.2 := by decide
    exact of_decide_eq_true (List.all_eq_true.mp stands (letter, b) member)

theorem unit?_eq_some_iff {a b c d : UInt8} {value : Nat} :
    unit? a b c d = some value ↔ ∃ values,
      Text.Hex.HaveValues ([a, b, c, d].map Char.ofUInt8) values ∧
        Nat.ofDigits 16 values.reverse = value := by
  have number (i j k l : Nat) :
      Nat.ofDigits 16 [i, j, k, l].reverse = ((i * 16 + j) * 16 + k) * 16 + l := by
    simp only [List.reverse_cons, List.reverse_nil, List.nil_append, List.cons_append,
      Nat.ofDigits_cons, Nat.ofDigits_nil]
    omega
  constructor
  · intro found
    unfold unit? at found
    split at found
    next i j k l first second third fourth =>
      cases found
      rw [Text.Hex.digitValue?_eq_some_iff] at first second third fourth
      exact ⟨[i, j, k, l], .cons first (.cons second (.cons third (.cons fourth .nil))),
        number i j k l⟩
    next => cases found
  · rintro ⟨values, digits, rfl⟩
    obtain ⟨i, _, first, digitsB, rfl⟩ := Text.Hex.haveValues_cons_iff.mp digits
    obtain ⟨j, _, second, digitsC, rfl⟩ := Text.Hex.haveValues_cons_iff.mp digitsB
    obtain ⟨k, _, third, digitsD, rfl⟩ := Text.Hex.haveValues_cons_iff.mp digitsC
    obtain ⟨l, _, fourth, none, rfl⟩ := Text.Hex.haveValues_cons_iff.mp digitsD
    cases none
    simp only [unit?, first, second, third, fourth, number]

inductive StringText : List Piece → List UInt8 → Prop
  | nil : StringText [] []
  | plain {pieces bytes} {b : UInt8} (plain : isPlain b = true) (rest : StringText pieces bytes) :
      StringText (.byte b :: pieces) (b :: bytes)
  | escape {pieces bytes} {letter b : UInt8} (escaped : (letter, b) ∈ escapes)
      (rest : StringText pieces bytes) : StringText (.byte b :: pieces) (0x5C :: letter :: bytes)
  | unit {pieces bytes values} {a b c d : UInt8}
      (hex : Text.Hex.HaveValues ([a, b, c, d].map Char.ofUInt8) values)
      (rest : StringText pieces bytes) :
      StringText (.unit (Nat.ofDigits 16 values.reverse) :: pieces)
        (0x5C :: 0x75 :: a :: b :: c :: d :: bytes)

/-- The token of a string in which every character stands for itself. -/
def quoted (text : String) : Token := .string ((Text.encode text).map .byte) none

theorem scanString_quote (pieces : List Piece) (rest : List UInt8) :
    scanString pieces (0x22 :: rest) = (.string pieces.reverse none, rest) := by
  rw [scanString.eq_def]
  rfl

theorem scanString_cons {b : UInt8} (plain : isPlain b = true) (pieces : List Piece)
    (rest : List UInt8) : scanString pieces (b :: rest) = scanString (.byte b :: pieces) rest := by
  simp only [isPlain, Bool.and_eq_true, bne_iff_ne, decide_eq_true_eq] at plain
  obtain ⟨⟨notQuote, notEscape⟩, printable⟩ := plain
  have notControl : ¬b < 0x20 := UInt8.not_lt.mpr printable
  rw [scanString.eq_def]
  simp only [if_neg notQuote, if_neg notEscape, if_neg notControl]

theorem scanString_text {pieces : List Piece} {bytes : List UInt8} (text : StringText pieces bytes)
    (before : List Piece) (rest : List UInt8) :
    scanString before (bytes ++ 0x22 :: rest) = (.string (before.reverse ++ pieces) none, rest) := by
  induction text generalizing before with
  | nil => rw [List.nil_append, scanString_quote, List.append_nil]
  | plain plain _ ih =>
    rw [List.cons_append, scanString_cons plain, ih]
    simp
  | @escape _ _ letter _ escaped _ ih =>
    have notUnit : letter ≠ 0x75 := by
      rintro rfl
      have missing : 0x75 ∉ escapes.map Prod.fst := by decide
      exact missing (List.mem_map_of_mem escaped)
    rw [List.cons_append, List.cons_append, scanString.eq_def]
    simp [notUnit, escaped?_eq_some_iff.mpr escaped, ih]
  | unit hex _ ih =>
    simp only [List.cons_append]
    rw [scanString.eq_def]
    simp [unit?_eq_some_iff.mpr ⟨_, hex, rfl⟩, ih]

theorem StringText.bytes {bytes : List UInt8} (plain : bytes.all isPlain = true) :
    StringText (bytes.map .byte) bytes := by
  induction bytes with
  | nil => exact .nil
  | cons b later ih =>
    rw [List.all_cons, Bool.and_eq_true] at plain
    exact .plain plain.1 (ih plain.2)

theorem Spells.quoted {text : String} (plain : (Text.encode text).all isPlain = true) :
    Spells (0x22 :: Text.encode text ++ [0x22]) [quoted text] := by
  intro rest
  rw [List.append_assoc]
  exact tokens_of_scanToken (by decide) (scanString_text (.bytes plain) [] rest)

theorem contentFrom_bytes (before bytes : List UInt8) :
    contentFrom none before (bytes.map .byte) = .ok (before.reverse ++ bytes) := by
  induction bytes generalizing before with
  | nil => simp [contentFrom]
  | cons b later ih => simp [contentFrom, ih]

theorem content_quoted (text : String) :
    content ((Text.encode text).map .byte) none = .ok text := by
  simp only [content, contentFrom_bytes, List.reverse_nil, List.nil_append, Text.decode?_encode]

/-! ### Numerals -/

/-- The decimal digits of a number, most significant first. -/
def decimalDigits (n : Nat) : List Nat := (Nat.toDigits 10 n).map fun c => c.toNat - '0'.toNat

def digitByte (d : Nat) : UInt8 := .ofNat ('0'.toNat + d)

theorem isDigit_digitByte : ∀ d < 10, isDigit (digitByte d) = true := by decide

theorem toNat_digitByte : ∀ d < 10, (digitByte d).toNat - 0x30 = d := by decide

theorem isSpace_digitByte : ∀ d < 10, isSpace (digitByte d) = false := by decide

theorem encode_digit : ∀ d < 10, Text.encode (toString d) = [digitByte d] := by decide

theorem decimalDigits_of_lt {n : Nat} (small : n < 10) : decimalDigits n = [n] := by
  rw [decimalDigits, Nat.toDigits_of_lt_base small, List.map_singleton]
  exact congrArg (fun d => [d]) (Nat.toNat_digitChar_sub_48_of_lt_ten small)

theorem decimalDigits_append {n d : Nat} (positive : 0 < n) (small : d < 10) :
    decimalDigits (10 * n + d) = decimalDigits n ++ [d] := by
  rw [← decimalDigits_of_lt small]
  simp only [decimalDigits, ← Nat.toDigits_append_toDigits (by decide) positive small,
    List.map_append]

theorem decimalDigits_lt (n : Nat) : ∀ d ∈ decimalDigits n, d < 10 := by
  induction n using Nat.base_induction 10 (by decide) with
  | single n small => simpa [decimalDigits_of_lt small] using small
  | digit n d small positive ih =>
    rw [decimalDigits_append positive small]
    intro e member
    rcases List.mem_append.mp member with before | last
    · exact ih e before
    · rwa [List.mem_singleton.mp last]

/-- Only zero itself starts with a zero. -/
theorem exists_decimalDigits_cons {n : Nat} (positive : 0 < n) :
    ∃ d rest, decimalDigits n = d :: rest ∧ d ≠ 0 := by
  induction n using Nat.base_induction 10 (by decide) with
  | single n small =>
    exact ⟨n, [], decimalDigits_of_lt small, Nat.ne_of_gt positive⟩
  | digit n last small nonzero ih =>
    obtain ⟨d, rest, first, leads⟩ := ih nonzero
    exact ⟨d, rest ++ [last], by rw [decimalDigits_append nonzero small, first]; rfl, leads⟩

theorem encode_toString (n : Nat) : Text.encode (toString n) = (decimalDigits n).map digitByte := by
  induction n using Nat.base_induction 10 (by decide) with
  | single n small =>
    rw [decimalDigits_of_lt small]
    exact encode_digit n small
  | digit n d small positive ih =>
    have text : toString (10 * n + d) = toString n ++ toString d := by
      simp only [Nat.toString_eq_ofList_toDigits,
        ← Nat.toDigits_append_toDigits (by decide) positive small, String.ofList_append]
    rw [text, Text.encode_append, ih, encode_digit d small, decimalDigits_append positive small,
      List.map_append]
    rfl

theorem absorb_append {n v : Nat} {digits : List Nat} (absorbed : absorb n digits = (v, []))
    (more : List Nat) : absorb n (digits ++ more) = absorb v more := by
  fun_induction absorb n digits with
  | case1 n =>
    cases absorbed
    rfl
  | case2 n d rest fits ih =>
    rw [List.cons_append, absorb, if_pos fits]
    exact ih absorbed
  | case3 n d rest large => cases absorbed

theorem absorb_decimalDigits {n : Nat} (fits : n < UInt64.size) :
    absorb 0 (decimalDigits n) = (n, []) := by
  induction n using Nat.base_induction 10 (by decide) with
  | single n small => simp [decimalDigits_of_lt small, absorb, fits]
  | digit n d small positive ih =>
    rw [decimalDigits_append positive small, absorb_append (ih (by omega)), absorb, if_pos fits]
    rfl

/-- The token of a number without sign, point and exponent. -/
def numeral (n : Nat) : Token := .number ⟨false, decimalDigits n, [], none⟩ none

theorem numberValue_numeral {n : Nat} (fits : n < UInt64.size) :
    numberValue ⟨false, decimalDigits n, [], none⟩ none = .ok (.integer n) := by
  simp [numberValue, Numeral.value, absorb_decimalDigits fits, integerValue]

def endsNumeral (b : UInt8) : Bool := !isDigit b && b != 0x2E && b != 0x65 && b != 0x45

/-! ### Texts of numerals -/

def AreDigits (digits : List Nat) : Prop := digits ≠ [] ∧ ∀ d ∈ digits, d < 10

inductive SignText : Bool → List UInt8 → Prop
  | none : SignText false []
  | plus : SignText false [0x2B]
  | minus : SignText true [0x2D]

inductive ExponentText : Option Exponent → List UInt8 → Prop
  | none : ExponentText none []
  | some {letter : UInt8} {e : Exponent} {sign : List UInt8}
      (marks : letter = 0x65 ∨ letter = 0x45) (signs : SignText e.negative sign)
      (digits : AreDigits e.digits) :
      ExponentText (some e) (letter :: (sign ++ e.digits.map digitByte))

inductive FractionText : List Nat → List UInt8 → Prop
  | none : FractionText [] []
  | some {digits} (areDigits : AreDigits digits) :
      FractionText digits (0x2E :: digits.map digitByte)

/-- A numeral: digits, of which a zero that comes first stands alone, with a minus, a fraction and
an exponent if it has them. -/
structure NumeralText (n : Numeral) (fraction exponent : List UInt8) : Prop where
  whole : AreDigits n.whole
  leading : ∀ d digits, n.whole ≠ 0 :: d :: digits
  fractionText : FractionText n.fraction fraction
  exponentText : ExponentText n.exponent exponent

def EndsDigits (bytes : List UInt8) : Prop := ∃ b rest, bytes = b :: rest ∧ isDigit b = false

theorem scanDigits_text {digits : List Nat} (areDigits : AreDigits digits) {bytes : List UInt8}
    (ends : EndsDigits bytes) : scanDigits (digits.map digitByte ++ bytes) = (digits, bytes) := by
  obtain ⟨b, rest, rfl, other⟩ := ends
  have other : ¬isDigit b = true := Bool.not_eq_true _ ▸ other
  have small := areDigits.2
  have all : ∀ c ∈ digits.map digitByte, isDigit c = true :=
    List.forall_mem_map.mpr fun d member => isDigit_digitByte d (small d member)
  have values : (digits.map digitByte).map (fun c => c.toNat - 0x30) = digits := by
    rw [List.map_map]
    exact (List.map_congr_left fun d member => toNat_digitByte d (small d member)).trans
      (List.map_id digits)
  simp only [scanDigits, List.takeWhile_append_of_pos all, List.dropWhile_append_of_pos all,
    List.takeWhile_cons_of_neg other, List.dropWhile_cons_of_neg other, List.append_nil, values]

theorem endsDigits_exponent {e : Option Exponent} {bytes : List UInt8} (text : ExponentText e bytes)
    {b : UInt8} (ends : endsNumeral b = true) (rest : List UInt8) :
    ∃ c tail, bytes ++ b :: rest = c :: tail ∧ isDigit c = false ∧ c ≠ 0x2E := by
  cases text with
  | none =>
    simp only [endsNumeral, Bool.and_eq_true, Bool.not_eq_true', bne_iff_ne] at ends
    exact ⟨b, rest, rfl, ends.1.1.1, ends.1.1.2⟩
  | some marks =>
    refine ⟨_, _, rfl, ?_⟩
    rcases marks with rfl | rfl <;> decide

theorem endsDigits_fraction {digits : List Nat} {bytes after : List UInt8}
    (text : FractionText digits bytes) (ends : EndsDigits after) : EndsDigits (bytes ++ after) := by
  cases text with
  | none => exact ends
  | some => exact ⟨_, _, rfl, rfl⟩

/-- The sign of an exponent, if it has one, comes off before its digits. -/
theorem scanSign {negative : Bool} {sign : List UInt8} (signs : SignText negative sign)
    {d : Nat} (small : d < 10) (rest : List UInt8) :
    let bytes := sign ++ digitByte d :: rest
    decide (bytes.head? = some 0x2D) = negative ∧
      (if negative || bytes.head? = some 0x2B then bytes.drop 1 else bytes) =
        digitByte d :: rest := by
  have differs {b : UInt8} (other : isDigit b = false) : digitByte d ≠ b := by
    rintro rfl
    exact Bool.noConfusion (other.symm.trans (isDigit_digitByte d small))
  have notMinus : digitByte d ≠ 0x2D := differs rfl
  have notPlus : digitByte d ≠ 0x2B := differs rfl
  cases signs <;> simp [notMinus, notPlus]

theorem scanExponent_text {n : Numeral} (plain : n.exponent = none) {e : Option Exponent}
    {bytes : List UInt8} (text : ExponentText e bytes) {b : UInt8} (ends : endsNumeral b = true)
    (rest : List UInt8) :
    scanExponent n (bytes ++ b :: rest) = (.number { n with exponent := e } none, b :: rest) := by
  simp only [endsNumeral, Bool.and_eq_true, Bool.not_eq_true', bne_iff_ne] at ends
  obtain ⟨⟨⟨noDigit, -⟩, noExponent⟩, noCapital⟩ := ends
  cases text with
  | none => simp [scanExponent, noExponent, noCapital, ← plain]
  | @some letter e sign marks signs digits =>
    have isMark : (letter = 0x65 || letter = 0x45) = true := by
      rcases marks with rfl | rfl <;> rfl
    have scanned := scanDigits_text digits ⟨b, rest, rfl, noDigit⟩
    obtain ⟨negative, _ | ⟨d, others⟩⟩ := e
    · exact absurd rfl digits.1
    obtain ⟨minus, unsigned⟩ := scanSign signs (digits.2 d List.mem_cons_self)
      (others.map digitByte ++ b :: rest)
    simp only [List.map_cons, List.cons_append, List.append_assoc] at scanned ⊢
    simp only [scanExponent, isMark, if_pos, minus, unsigned, scanned]

theorem scanFraction_text {n : Numeral} {digits : List Nat} {e : Option Exponent}
    {fraction exponent : List UInt8} (plain : n.fraction = [] ∧ n.exponent = none)
    (fractionText : FractionText digits fraction) (exponentText : ExponentText e exponent)
    {b : UInt8} (ends : endsNumeral b = true) (rest : List UInt8) :
    scanFraction n (fraction ++ (exponent ++ b :: rest)) =
      (.number { n with fraction := digits, exponent := e } none, b :: rest) := by
  obtain ⟨c, tail, after, noDigit, noPoint⟩ := endsDigits_exponent exponentText ends rest
  cases fractionText with
  | none =>
    have scanned := scanExponent_text plain.2 exponentText ends rest
    rw [after] at scanned
    rw [List.nil_append, after, scanFraction, if_neg noPoint, scanned, ← plain.1]
  | some areDigits =>
    have scanned := scanDigits_text areDigits ⟨c, tail, after, noDigit⟩
    rw [List.cons_append, scanFraction, if_pos rfl, scanned]
    obtain ⟨d, others, rfl⟩ := List.exists_cons_of_ne_nil areDigits.1
    exact scanExponent_text (n := { n with fraction := d :: others }) plain.2 exponentText ends rest

theorem scanNumber_text {n : Numeral} {fraction exponent : List UInt8}
    (text : NumeralText n fraction exponent) {b : UInt8} (ends : endsNumeral b = true)
    (rest : List UInt8) :
    scanNumber n.negative (n.whole.map digitByte ++ (fraction ++ (exponent ++ b :: rest))) =
      (.number n none, b :: rest) := by
  obtain ⟨c, tail, after, noDigit, -⟩ := endsDigits_exponent text.exponentText ends rest
  have scanned := scanDigits_text text.whole
    (endsDigits_fraction text.fractionText ⟨c, tail, after, noDigit⟩)
  rw [scanNumber, scanned]
  split
  next none => exact absurd (congrArg Prod.fst none) text.whole.1
  next zero => exact absurd (congrArg Prod.fst zero) (text.leading _ _)
  next digits tail _ _ same =>
    cases same
    exact scanFraction_text ⟨rfl, rfl⟩ text.fractionText text.exponentText ends rest

theorem scanToken_digitByte {d : Nat} (small : d < 10) (rest : List UInt8) :
    scanToken (digitByte d) rest = scanNumber false (digitByte d :: rest) := by
  match d, small with
  | 0, _ | 1, _ | 2, _ | 3, _ | 4, _ | 5, _ | 6, _ | 7, _ | 8, _ | 9, _ => rfl

theorem tokens_number {n : Numeral} {fraction exponent : List UInt8}
    (text : NumeralText n fraction exponent) {b : UInt8} (ends : endsNumeral b = true)
    (rest : List UInt8) :
    tokens ((if n.negative then [0x2D] else []) ++
      (n.whole.map digitByte ++ (fraction ++ (exponent ++ b :: rest)))) =
        .number n none :: tokens (b :: rest) := by
  have scanned := scanNumber_text text ends rest
  cases negative : n.negative with
  | true =>
    rw [negative] at scanned
    exact tokens_of_scanToken rfl scanned
  | false =>
    obtain ⟨d, others, digits⟩ := List.exists_cons_of_ne_nil text.whole.1
    have small : d < 10 := text.whole.2 d (by rw [digits]; exact List.mem_cons_self)
    rw [negative, digits, List.map_cons, List.cons_append, ← scanToken_digitByte small] at scanned
    rw [digits]
    exact tokens_of_scanToken (isSpace_digitByte d small) scanned

theorem numeralText_decimalDigits (n : Nat) :
    NumeralText ⟨false, decimalDigits n, [], none⟩ [] [] where
  whole := ⟨by simp [decimalDigits], decimalDigits_lt n⟩
  leading := by
    intro d digits same
    rcases Nat.eq_zero_or_pos n with rfl | positive
    · cases same
    · obtain ⟨e, rest, first, leads⟩ := exists_decimalDigits_cons positive
      rw [first] at same
      cases same
      exact leads rfl
  fractionText := .none
  exponentText := .none

/-- A numeral in front of bytes that do not continue it. -/
theorem Spells.number (n : Nat) {bytes : List UInt8} {ts : List Token}
    (ends : bytes.head?.any endsNumeral = true) (spells : Spells bytes ts) :
    Spells (Text.encode (toString n) ++ bytes) (numeral n :: ts) := by
  intro rest
  match bytes with
  | [] => cases ends
  | b :: later =>
    rw [encode_toString, List.append_assoc, List.cons_append]
    exact (tokens_number (numeralText_decimalDigits n) ends (later ++ rest)).trans
      (congrArg (numeral n :: ·) (spells rest))

end LexicalRuns.Json
