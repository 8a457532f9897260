import LexicalRuns.Json.Token

/-! The content of tokens, for readers that need more than their kind. As with `serde_json`, units in
a string that are surrogates must come in pairs, and its bytes must be UTF-8 in the end; and a value of
another type than was wanted is shown by its content, or by its opening bracket. -/
namespace LexicalRuns.Json

def isHighSurrogate (unit : Nat) : Bool := 0xD800 ≤ unit && unit ≤ 0xDBFF

def isLowSurrogate (unit : Nat) : Bool := 0xDC00 ≤ unit && unit ≤ 0xDFFF

/-- The bytes of a code point that is no surrogate. -/
def codePointBytes (c : Nat) : List UInt8 := String.utf8EncodeChar (Char.ofNat c)

/-- The bytes of a string after those in `before`, the last of them first. -/
def contentFrom (defect : Option Defect) (before : List UInt8) :
    List Piece → Except Defect (List UInt8)
  | [] =>
    match defect with
    | none => .ok before.reverse
    | some d => .error d
  | .byte b :: rest => contentFrom defect (b :: before) rest
  | .unit u :: rest =>
    if isLowSurrogate u then .error .malformed
    else if isHighSurrogate u then
      match rest with
      | [] => .error (defect.getD .malformed)
      | .byte _ :: _ => .error .malformed
      | .unit v :: rest =>
        if isLowSurrogate v then
          let c := 0x10000 + (u - 0xD800) * 0x400 + (v - 0xDC00)
          contentFrom defect ((codePointBytes c).reverse ++ before) rest
        else .error .malformed
    else contentFrom defect ((codePointBytes u).reverse ++ before) rest

def content (pieces : List Piece) (defect : Option Defect) : Except Defect String :=
  match contentFrom defect [] pieces with
  | .error d => .error d
  | .ok bytes =>
    match Text.decode? bytes with
    | none => .error .malformed
    | some text => .ok text

def numberValue (n : Numeral) (defect : Option Defect) : Except Defect Number :=
  match defect with
  | some d => .error d
  | none => n.value

/-- What a message says of a value that starts with this token. -/
def Token.found : Token → Except Defect Found
  | .openObject => .ok .object
  | .openList => .ok .list
  | .literal _ (some d) => .error d
  | .literal .null none => .ok .null
  | .literal (.boolean value) none => .ok (.boolean value)
  | .number n defect => (numberValue n defect).map Number.found
  | .string pieces defect => (content pieces defect).map Found.text
  | .closeObject | .closeList | .colon | .comma | .unexpected => .error .malformed

def Token.mismatch (t : Token) (wanted : Wanted) : Fault :=
  match t.found with
  | .error d => .text d
  | .ok found => .shape (.wrongType found wanted)

end LexicalRuns.Json
