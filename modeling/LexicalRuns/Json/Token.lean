import LexicalRuns.Json.Numeral
import LexicalRuns.Text.Utf8

/-! Tokens of a JSON text, with the white space, escapes and numerals that `serde_json` accepts. The
kind of a token shows in its first byte; a token that starts well and goes wrong carries its defect,
and nothing is read after it. So a reader meets defects in the order in which it reads, as that reader
of bytes does, and one that is content with the kind of a token never sees them. -/
namespace LexicalRuns.Json

inductive Literal where
  | null
  | boolean (value : Bool)
  deriving DecidableEq, Repr

/-- A part of a string: a byte of its text, or a 16-bit unit written by its number. -/
inductive Piece where
  | byte (value : UInt8)
  | unit (value : Nat)
  deriving DecidableEq, Repr

inductive Token where
  | openObject
  | closeObject
  | openList
  | closeList
  | colon
  | comma
  | literal (value : Literal) (defect : Option Defect)
  | number (value : Numeral) (defect : Option Defect)
  | string (pieces : List Piece) (defect : Option Defect)
  | unexpected
  deriving DecidableEq, Repr

def isSpace (b : UInt8) : Bool := b = 0x20 || b = 0x09 || b = 0x0A || b = 0x0D

def isDigit (b : UInt8) : Bool := 0x30 ≤ b && b ≤ 0x39

/-- The defect of a text that lacks something, by what stands in its place. -/
def lacking : List UInt8 → Defect
  | [] => .truncated
  | _ :: _ => .malformed

def escaped? (b : UInt8) : Option UInt8 :=
  match Char.ofUInt8 b with
  | '"' => some 0x22
  | '\\' => some 0x5C
  | '/' => some 0x2F
  | 'b' => some 0x08
  | 'f' => some 0x0C
  | 'n' => some 0x0A
  | 'r' => some 0x0D
  | 't' => some 0x09
  | _ => none

def unit? (a b c d : UInt8) : Option Nat :=
  match Text.Hex.digitValue? (.ofUInt8 a), Text.Hex.digitValue? (.ofUInt8 b),
      Text.Hex.digitValue? (.ofUInt8 c), Text.Hex.digitValue? (.ofUInt8 d) with
  | some a, some b, some c, some d => some (((a * 16 + b) * 16 + c) * 16 + d)
  | _, _, _, _ => none

/-- The rest of a string after its opening quote and the given pieces, the last of them first. -/
def scanString (pieces : List Piece) : List UInt8 → Token × List UInt8
  | [] => (.string pieces.reverse (some .truncated), [])
  | b :: rest =>
    if b = 0x22 then (.string pieces.reverse none, rest)
    else if b = 0x5C then
      match rest with
      | [] => (.string pieces.reverse (some .truncated), [])
      | letter :: rest =>
        if letter = 0x75 then
          match rest with
          | a :: b :: c :: d :: rest =>
            match unit? a b c d with
            | some value => scanString (.unit value :: pieces) rest
            | none => (.string pieces.reverse (some .malformed), [])
          | _ => (.string pieces.reverse (some .truncated), [])
        else
          match escaped? letter with
          | some value => scanString (.byte value :: pieces) rest
          | none => (.string pieces.reverse (some .malformed), [])
    else if b < 0x20 then (.string pieces.reverse (some .malformed), [])
    else scanString (.byte b :: pieces) rest

def scanDigits (bytes : List UInt8) : List Nat × List UInt8 :=
  ((bytes.takeWhile isDigit).map fun b => b.toNat - 0x30, bytes.dropWhile isDigit)

def scanExponent (n : Numeral) : List UInt8 → Token × List UInt8
  | [] => (.number n none, [])
  | b :: rest =>
    if b = 0x65 || b = 0x45 then
      let negative := rest.head? = some 0x2D
      let unsigned := if negative || rest.head? = some 0x2B then rest.drop 1 else rest
      match scanDigits unsigned with
      | ([], tail) => (.number n (some (lacking tail)), [])
      | (digits, tail) => (.number { n with exponent := some ⟨negative, digits⟩ } none, tail)
    else (.number n none, b :: rest)

def scanFraction (n : Numeral) : List UInt8 → Token × List UInt8
  | [] => (.number n none, [])
  | b :: rest =>
    if b = 0x2E then
      match scanDigits rest with
      | ([], tail) => (.number n (some (lacking tail)), [])
      | (digits, tail) => scanExponent { n with fraction := digits } tail
    else scanExponent n (b :: rest)

/-- A number from its first digit on; a zero that starts the number stands alone. -/
def scanNumber (negative : Bool) (bytes : List UInt8) : Token × List UInt8 :=
  match scanDigits bytes with
  | ([], tail) => (.number ⟨negative, [], [], none⟩ (some (lacking tail)), [])
  | (0 :: d :: digits, _) => (.number ⟨negative, 0 :: d :: digits, [], none⟩ (some .malformed), [])
  | (digits, tail) => scanFraction ⟨negative, digits, [], none⟩ tail

def scanLiteral (value : Literal) : List Char → List UInt8 → Token × List UInt8
  | [], bytes => (.literal value none, bytes)
  | _ :: _, [] => (.literal value (some .truncated), [])
  | c :: rest, b :: bytes =>
    if Char.ofUInt8 b = c then scanLiteral value rest bytes
    else (.literal value (some .malformed), [])

def scanToken (b : UInt8) (rest : List UInt8) : Token × List UInt8 :=
  match Char.ofUInt8 b with
  | '\x7b' => (.openObject, rest)
  | '\x7d' => (.closeObject, rest)
  | '[' => (.openList, rest)
  | ']' => (.closeList, rest)
  | ':' => (.colon, rest)
  | ',' => (.comma, rest)
  | '"' => scanString [] rest
  | '-' => scanNumber true rest
  | 'n' => scanLiteral .null ['u', 'l', 'l'] rest
  | 't' => scanLiteral (.boolean true) ['r', 'u', 'e'] rest
  | 'f' => scanLiteral (.boolean false) ['a', 'l', 's', 'e'] rest
  | _ => if isDigit b then scanNumber false (b :: rest) else (.unexpected, [])

theorem length_dropWhile_le (p : UInt8 → Bool) (bytes : List UInt8) :
    (bytes.dropWhile p).length ≤ bytes.length :=
  (List.dropWhile_suffix p).length_le

theorem scanString_length (pieces : List Piece) (bytes : List UInt8) :
    (scanString pieces bytes).2.length ≤ bytes.length := by
  fun_induction scanString pieces bytes <;> simp_all <;> omega

theorem scanLiteral_length (value : Literal) (expected : List Char) (bytes : List UInt8) :
    (scanLiteral value expected bytes).2.length ≤ bytes.length := by
  fun_induction scanLiteral value expected bytes <;> simp_all <;> omega

theorem scanExponent_length (n : Numeral) (bytes : List UInt8) :
    (scanExponent n bytes).2.length ≤ bytes.length := by
  cases bytes with
  | nil => simp [scanExponent]
  | cons b rest =>
    simp only [scanExponent]
    split
    · split
      · simp
      · rename_i digits tail _ scanned
        have : tail = _ := (congrArg Prod.snd scanned).symm
        simp only [scanDigits] at this
        subst this
        have := length_dropWhile_le isDigit
          (if decide (rest.head? = some 0x2D) || decide (rest.head? = some 0x2B)
            then rest.drop 1 else rest)
        split at this <;> simp_all <;> omega
    · simp

theorem scanFraction_length (n : Numeral) (bytes : List UInt8) :
    (scanFraction n bytes).2.length ≤ bytes.length := by
  cases bytes with
  | nil => simp [scanFraction]
  | cons b rest =>
    simp only [scanFraction]
    split
    · split
      · simp
      · rename_i digits tail _ scanned
        have : tail = _ := (congrArg Prod.snd scanned).symm
        simp only [scanDigits] at this
        subst this
        have := length_dropWhile_le isDigit rest
        have := scanExponent_length { n with fraction := digits } (rest.dropWhile isDigit)
        simp only [List.length_cons]
        omega
    · exact scanExponent_length n (b :: rest)

theorem scanNumber_length (negative : Bool) (bytes : List UInt8) :
    (scanNumber negative bytes).2.length ≤ bytes.length := by
  simp only [scanNumber]
  split
  · simp
  · simp
  · rename_i digits tail _ _ scanned
    have : tail = _ := (congrArg Prod.snd scanned).symm
    simp only [scanDigits] at this
    subst this
    exact Nat.le_trans (scanFraction_length _ _) (length_dropWhile_le isDigit bytes)

theorem scanNumber_digit_length {b : UInt8} (digit : isDigit b = true) (rest : List UInt8) :
    (scanNumber false (b :: rest)).2.length ≤ rest.length := by
  simp only [scanNumber]
  split
  · simp
  · simp
  · rename_i digits tail _ _ scanned
    have : tail = _ := (congrArg Prod.snd scanned).symm
    simp only [scanDigits, List.dropWhile_cons_of_pos digit] at this
    subst this
    exact Nat.le_trans (scanFraction_length _ _) (length_dropWhile_le isDigit rest)

theorem scanToken_length (b : UInt8) (rest : List UInt8) :
    (scanToken b rest).2.length ≤ rest.length := by
  unfold scanToken
  split
  all_goals first
    | exact Nat.le_refl _
    | exact scanString_length _ _
    | exact scanNumber_length _ _
    | exact scanLiteral_length _ _ _
    | skip
  split
  · exact scanNumber_digit_length (by assumption) _
  · simp

/-- The tokens of a text after the given ones, the last of them first. -/
def tokensFrom (before : List Token) : List UInt8 → List Token
  | [] => before.reverse
  | b :: rest =>
    if isSpace b then tokensFrom before rest
    else
      let scanned := scanToken b rest
      tokensFrom (scanned.1 :: before) scanned.2
termination_by bytes => bytes.length
decreasing_by
  · simp
  · have := scanToken_length b rest
    simp only [List.length_cons]
    omega

def tokens (bytes : List UInt8) : List Token := tokensFrom [] bytes

end LexicalRuns.Json
