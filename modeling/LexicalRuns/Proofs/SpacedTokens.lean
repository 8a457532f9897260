import LexicalRuns.Proofs.SkippedValues
import LexicalRuns.Proofs.SpelledTokens

/-! Texts of JSON tokens, with white space wherever it may stand. A token can be spelled in several
ways, and its spellings are read as the token. Only a numeral could run into what follows it: in a
value every numeral is followed by white space, a comma or a closing bracket. -/
namespace LexicalRuns.Json

inductive Lexeme : Token → List UInt8 → Prop
  | openObject : Lexeme .openObject [0x7B]
  | closeObject : Lexeme .closeObject [0x7D]
  | openList : Lexeme .openList [0x5B]
  | closeList : Lexeme .closeList [0x5D]
  | colon : Lexeme .colon [0x3A]
  | comma : Lexeme .comma [0x2C]
  | null : Lexeme (.literal .null none) (Text.encode "null")
  | boolean (value : Bool) :
      Lexeme (.literal (.boolean value) none) (Text.encode (toString value))
  | string {pieces bytes} (inside : StringText pieces bytes) :
      Lexeme (.string pieces none) (0x22 :: (bytes ++ [0x22]))
  | number {n fraction exponent} (text : NumeralText n fraction exponent) :
      Lexeme (.number n none) ((if n.negative then [0x2D] else []) ++
        (n.whole.map digitByte ++ (fraction ++ exponent)))

/-- Texts of tokens, with white space around each of them. -/
inductive Spaced : List Token → List UInt8 → Prop
  | nil {blank} (spaces : blank.all isSpace = true) : Spaced [] blank
  | cons {t ts blank bytes rest} (spaces : blank.all isSpace = true) (lexeme : Lexeme t bytes)
      (further : Spaced ts rest) : Spaced (t :: ts) (blank ++ (bytes ++ rest))

theorem scanLiteral_text (value : Bool) (rest : List UInt8) :
    ∃ b tail, Text.encode (toString value) = b :: tail ∧ isSpace b = false ∧
      scanToken b (tail ++ rest) = (.literal (.boolean value) none, rest) := by
  cases value <;> exact ⟨_, _, rfl, rfl, rfl⟩

/-! ### Tokens in a row -/

/-- A token that may come after a numeral. -/
def Token.bounds : Token → Bool
  | .comma | .closeList | .closeObject => true
  | _ => false

/-- Every numeral has a token after it that ends it. -/
def Bounded : List Token → Prop
  | [] => True
  | .number _ _ :: rest => rest.head?.any Token.bounds = true ∧ Bounded rest
  | _ :: rest => Bounded rest

theorem Bounded.tail {t : Token} {ts : List Token} (bounded : Bounded (t :: ts)) : Bounded ts := by
  cases t with
  | number => exact bounded.2
  | _ => exact bounded

theorem endsNumeral_of_isSpace {b : UInt8} (space : isSpace b = true) : endsNumeral b = true := by
  simp only [isSpace, Bool.or_eq_true, decide_eq_true_eq] at space
  rcases space with ((rfl | rfl) | rfl) | rfl <;> rfl

/-- The text of a token that may come after a numeral ends it, as white space before it does. -/
theorem Spaced.exists_endsNumeral {ts : List Token} {bytes : List UInt8} (spaced : Spaced ts bytes)
    (bounds : ts.head?.any Token.bounds = true) :
    ∃ b rest, bytes = b :: rest ∧ endsNumeral b = true := by
  cases spaced with
  | nil => cases bounds
  | @cons t _ blank _ _ spaces lexeme =>
    cases blank with
    | nil =>
      cases lexeme with
      | comma | closeList | closeObject => exact ⟨_, _, rfl, rfl⟩
      | _ => cases bounds
    | cons b blank =>
      rw [List.all_cons, Bool.and_eq_true] at spaces
      exact ⟨b, _, rfl, endsNumeral_of_isSpace spaces.1⟩

theorem Lexeme.spells_append {t : Token} {ts : List Token} {bytes rest : List UInt8}
    (lexeme : Lexeme t bytes) (bounded : Bounded (t :: ts)) (spaced : Spaced ts rest)
    (further : Spells rest ts) : Spells (bytes ++ rest) (t :: ts) := by
  cases lexeme with
  | string inside =>
    have alone : Spells (0x22 :: (_ ++ [0x22])) [_] := fun tail => by
      rw [List.cons_append, List.append_assoc]
      exact tokens_of_scanToken rfl (scanString_text inside [] tail)
    exact alone.append further
  | null =>
    have alone : Spells (Text.encode "null") [.literal .null none] := fun _ =>
      tokens_of_scanToken rfl rfl
    exact alone.append further
  | boolean value =>
    have alone : Spells (Text.encode (toString value)) [.literal (.boolean value) none] :=
      fun tail => by
        obtain ⟨b, letters, spelled, visible, scanned⟩ := scanLiteral_text value tail
        rw [spelled]
        exact tokens_of_scanToken visible scanned
    exact alone.append further
  | number text =>
    obtain ⟨b, later, rfl, ends⟩ := spaced.exists_endsNumeral bounded.1
    intro tail
    simp only [List.append_assoc, List.cons_append]
    rw [tokens_number text ends, ← List.cons_append, further]
  | _ => exact (Spells.single rfl fun _ => rfl).append further

theorem Spaced.spells {ts : List Token} {bytes : List UInt8} (spaced : Spaced ts bytes)
    (bounded : Bounded ts) : Spells bytes ts := by
  induction spaced with
  | nil spaces => exact .blank spaces
  | cons spaces lexeme further ih =>
    exact (Spells.blank spaces).append (lexeme.spells_append bounded further (ih bounded.tail))

/-- The tokens go well in front of a comma or a closing bracket. -/
def Closed (part : List Token) : Prop :=
  ∀ rest, rest.head?.any Token.bounds = true → Bounded rest → Bounded (part ++ rest)

theorem bounded_further {parts : List (List Token)} (closed : ∀ part ∈ parts, Closed part)
    {rest : List Token} (bounds : rest.head?.any Token.bounds = true) (bounded : Bounded rest) :
    (parts.flatMap (.comma :: ·) ++ rest).head?.any Token.bounds = true ∧
      Bounded (parts.flatMap (.comma :: ·) ++ rest) := by
  induction parts with
  | nil => exact ⟨bounds, bounded⟩
  | cons part later ih =>
    obtain ⟨here, closed⟩ := List.forall_mem_cons.mp closed
    obtain ⟨nextBounds, next⟩ := ih closed
    rw [List.flatMap_cons, List.append_assoc]
    exact ⟨rfl, here _ nextBounds next⟩

theorem closed_separated {parts : List (List Token)} (closed : ∀ part ∈ parts, Closed part) :
    Closed (separated parts) := by
  intro rest bounds bounded
  cases parts with
  | nil => exact bounded
  | cons part later =>
    obtain ⟨here, closed⟩ := List.forall_mem_cons.mp closed
    obtain ⟨nextBounds, next⟩ := bounded_further closed bounds bounded
    rw [separated, List.append_assoc]
    exact here _ nextBounds next

theorem closed_members {members : List Pair} (closed : ∀ p ∈ members, Closed p.value) :
    Closed (separated (members.map Pair.tokens)) :=
  closed_separated (List.forall_mem_map.mpr closed)

theorem IsValue.closed {v : List Token} (isValue : IsValue v) : Closed v := by
  induction isValue with
  | literal => exact fun _ _ bounded => bounded
  | number => exact fun _ bounds bounded => ⟨bounds, bounded⟩
  | string => exact fun _ _ bounded => bounded
  | list elements _ ih =>
    intro rest _ bounded
    rw [listTokens, List.append_assoc, List.cons_append]
    exact closed_separated ih (.closeList :: rest) rfl bounded
  | object members _ ih =>
    intro rest _ bounded
    rw [objectTokens, List.append_assoc, List.cons_append]
    exact closed_members ih (.closeObject :: rest) rfl bounded

theorem tokens_of_spaced {members : List Pair} {bytes : List UInt8}
    (values : ∀ p ∈ members, IsValue p.value) (spaced : Spaced (objectTokens members) bytes) :
    tokens bytes = objectTokens members := by
  have inside := closed_members fun p member => (values p member).closed
  exact (spaced.spells (inside [.closeObject] rfl trivial)).whole

/-! ### Plain texts -/

def Numeral.isPlain : Numeral → Bool
  | ⟨false, d :: digits, [], none⟩ =>
    (d != 0 || digits.isEmpty) && (d :: digits).all fun d => d < 10
  | _ => false

/-- A token that can be spelled by characters that stand for themselves. -/
def Token.isPlain : Token → Bool
  | .literal _ defect => defect = none
  | .string pieces defect =>
    pieces.all (fun | .byte b => Json.isPlain b | .unit _ => false) && defect = none
  | .number n defect => n.isPlain && defect = none
  | .unexpected => false
  | _ => true

def Token.spelling : Token → List UInt8
  | .openObject => [0x7B]
  | .closeObject => [0x7D]
  | .openList => [0x5B]
  | .closeList => [0x5D]
  | .colon => [0x3A]
  | .comma => [0x2C]
  | .literal .null _ => Text.encode "null"
  | .literal (.boolean value) _ => Text.encode (toString value)
  | .number n _ => n.whole.map digitByte
  | .string pieces _ =>
    0x22 :: (pieces.flatMap (fun | .byte b => [b] | .unit _ => []) ++ [0x22])
  | .unexpected => []

theorem stringText_of_plain {pieces : List Piece}
    (plain : pieces.all (fun | .byte b => isPlain b | .unit _ => false) = true) :
    StringText pieces (pieces.flatMap (fun | .byte b => [b] | .unit _ => [])) := by
  induction pieces with
  | nil => exact .nil
  | cons piece later ih =>
    rw [List.all_cons, Bool.and_eq_true] at plain
    obtain ⟨here, plain⟩ := plain
    cases piece with
    | byte b => exact .plain here (ih plain)
    | unit => cases here

theorem lexeme_of_plain {n : Numeral} (plain : n.isPlain = true) :
    Lexeme (.number n none) (n.whole.map digitByte) := by
  unfold Numeral.isPlain at plain
  split at plain
  next d digits =>
    simp only [Bool.and_eq_true, Bool.or_eq_true, bne_iff_ne, List.isEmpty_iff, List.all_eq_true,
      decide_eq_true_eq] at plain
    obtain ⟨leading, small⟩ := plain
    have text : NumeralText ⟨false, d :: digits, [], none⟩ [] [] := {
      whole := ⟨List.cons_ne_nil d digits, small⟩
      leading := by
        rintro e others same
        cases same
        simp at leading
      fractionText := .none
      exponentText := .none }
    have lexeme := Lexeme.number text
    simp only [Bool.false_eq_true, if_false, List.append_nil, List.nil_append] at lexeme
    exact lexeme
  next => cases plain

theorem lexeme_spelling {t : Token} (plain : t.isPlain = true) : Lexeme t t.spelling := by
  cases t with
  | literal value defect =>
    obtain rfl : defect = none := of_decide_eq_true plain
    cases value with
    | null => exact .null
    | boolean value => exact .boolean value
  | string pieces defect =>
    rw [Token.isPlain, Bool.and_eq_true] at plain
    obtain ⟨inside, ends⟩ := plain
    obtain rfl : defect = none := of_decide_eq_true ends
    exact .string (stringText_of_plain inside)
  | number n defect =>
    rw [Token.isPlain, Bool.and_eq_true] at plain
    obtain ⟨digits, ends⟩ := plain
    obtain rfl : defect = none := of_decide_eq_true ends
    exact lexeme_of_plain digits
  | openObject => exact .openObject
  | closeObject => exact .closeObject
  | openList => exact .openList
  | closeList => exact .closeList
  | colon => exact .colon
  | comma => exact .comma
  | unexpected => cases plain

theorem spaced_spelling {ts : List Token} (plain : ts.all Token.isPlain = true)
    (blank : List UInt8) (spaces : blank.all isSpace = true) :
    Spaced ts (ts.flatMap fun t => blank ++ t.spelling) := by
  induction ts with
  | nil => exact .nil rfl
  | cons t later ih =>
    rw [List.all_cons, Bool.and_eq_true] at plain
    obtain ⟨here, plain⟩ := plain
    rw [List.flatMap_cons, List.append_assoc]
    exact .cons spaces (lexeme_spelling here) (ih plain)

end LexicalRuns.Json
