import LexicalRuns.Json.Content
import LexicalRuns.Rule

/-! The plain values of a document: numbers of 32 bits and the names of rules. A reader takes its
value off the front of a list of tokens and gives what is left, which is always less. What is taken
for a value is what `serde_json` takes for a `u32`, and for an enumeration without data whose reader
`serde` derives: the name of a variant, or an object with that name as its only key, and null. A key
that is no string is a fault of the text there, as it is in every other object. -/
namespace LexicalRuns.Artifact.Document

open Json

abbrev Reading := Except Json.Fault

def broken (d : Defect) : Reading α := .error (.text d)

def wrong (m : Mismatch) : Reading α := .error (.shape m)

def readU32 : List Token → Reading (Nat × List Token)
  | [] => broken .truncated
  | .number n defect :: rest =>
    match numberValue n defect with
    | .error d => broken d
    | .ok (.integer value) =>
      if 0 ≤ value ∧ value < UInt32.size then .ok (value.toNat, rest)
      else wrong (.wrongInteger value)
    | .ok (.float negative magnitude) => wrong (.wrongType (.float negative magnitude) .u32)
  | t :: _ => .error (t.mismatch .u32)

def expect (t : Token) : List Token → Reading (List Token)
  | [] => broken .truncated
  | next :: rest => if next = t then .ok rest else broken .malformed

def ruleNamed (pieces : List Piece) (defect : Option Defect) : Reading Rule :=
  match content pieces defect with
  | .error d => broken d
  | .ok name =>
    match Rule.ofName? name with
    | none => wrong (.unknownRule name)
    | some rule => .ok rule

def readUnit : List Token → Reading (List Token)
  | [] => broken .truncated
  | .literal .null none :: rest => .ok rest
  | t :: _ => .error (t.mismatch .unit)

/-- An object whose only key names a rule, after its opening bracket. -/
def readRuleObject : List Token → Reading (Rule × List Token)
  | [] => broken .truncated
  | .string pieces defect :: rest => do
    let rule ← ruleNamed pieces defect
    let rest ← expect .colon rest
    let rest ← readUnit rest
    let rest ← expect .closeObject rest
    return (rule, rest)
  | _ :: _ => broken .malformed

def readRule : List Token → Reading (Rule × List Token)
  | [] => broken .truncated
  | .string pieces defect :: rest => do
    let rule ← ruleNamed pieces defect
    return (rule, rest)
  | .openObject :: rest => readRuleObject rest
  | _ :: _ => broken .malformed

theorem of_bind_eq_ok {x : Reading α} {f : α → Reading β} {b : β} (h : (x >>= f) = .ok b) :
    ∃ a, x = .ok a ∧ f a = .ok b := by
  cases x with
  | error e => cases h
  | ok a => exact ⟨a, rfl, h⟩

theorem expect_length {t : Token} {ts rest : List Token} (h : expect t ts = .ok rest) :
    rest.length < ts.length := by
  unfold expect at h
  split at h
  · cases h
  · split at h
    · cases h; simp
    · cases h

theorem readU32_length {ts rest : List Token} {n : Nat} (h : readU32 ts = .ok (n, rest)) :
    rest.length < ts.length := by
  unfold readU32 at h
  split at h
  · cases h
  · split at h
    · cases h
    · split at h
      · cases h; simp
      · cases h
    · cases h
  · cases h

theorem readUnit_length {ts rest : List Token} (h : readUnit ts = .ok rest) :
    rest.length < ts.length := by
  unfold readUnit at h
  split at h
  · cases h
  · cases h; simp
  · cases h

theorem readRuleObject_length {ts rest : List Token} {r : Rule}
    (h : readRuleObject ts = .ok (r, rest)) : rest.length < ts.length := by
  unfold readRuleObject at h
  split at h
  · cases h
  · obtain ⟨_, _, h⟩ := of_bind_eq_ok h
    obtain ⟨_, colon, h⟩ := of_bind_eq_ok h
    obtain ⟨_, unit, h⟩ := of_bind_eq_ok h
    obtain ⟨_, close, h⟩ := of_bind_eq_ok h
    cases h
    have := expect_length colon
    have := readUnit_length unit
    have := expect_length close
    simp only [List.length_cons]
    omega
  · cases h

theorem readRule_length {ts rest : List Token} {r : Rule} (h : readRule ts = .ok (r, rest)) :
    rest.length < ts.length := by
  unfold readRule at h
  split at h
  · cases h
  · obtain ⟨_, _, h⟩ := of_bind_eq_ok h
    cases h
    simp
  · have := readRuleObject_length h
    simp only [List.length_cons]
    omega
  · cases h

end LexicalRuns.Artifact.Document
