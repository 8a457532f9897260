import LexicalRuns.Artifact.Document.Value
import LexicalRuns.Json.Skip

/-! Going through the lists and objects of a document, one element or member at a time, as
`serde_json` hands them to a reader: a key has to be a string, and no comma may come before the end.
A value that nothing asks for is passed over. -/
namespace LexicalRuns.Artifact.Document

open Json

/-- What comes next in a list: its end, which is left to be read, or an element. -/
def nextElement (first : Bool) : List Token → Reading (Option (List Token))
  | [] => broken .truncated
  | .closeList :: _ => .ok none
  | t :: rest =>
    if first then .ok (some (t :: rest))
    else if t = .comma then
      match rest with
      | [] => broken .truncated
      | .closeList :: _ => broken .malformed
      | _ :: _ => .ok (some rest)
    else broken .malformed

/-- What comes next in an object: its end, or a member with its key. -/
inductive Member where
  | done (rest : List Token)
  | field (key : String) (rest : List Token)
  deriving DecidableEq, Repr

def readKey : List Token → Reading Member
  | [] => broken .truncated
  | .string pieces defect :: rest =>
    match content pieces defect with
    | .error d => broken d
    | .ok key => .ok (.field key rest)
  | _ :: _ => broken .malformed

def nextMember (first : Bool) : List Token → Reading Member
  | [] => broken .truncated
  | .closeObject :: rest => .ok (.done rest)
  | t :: rest =>
    if first then readKey (t :: rest)
    else if t = .comma then readKey rest
    else broken .malformed

def skipValue (ts : List Token) : Reading (List Token) := (skip ts).mapError .text

/-- The next element of a list of fixed length, `index` elements being read. -/
def element (wanted : Wanted) (index : Nat) (ts : List Token) : Reading (List Token) :=
  match nextElement (index == 0) ts with
  | .error fault => .error fault
  | .ok none => wrong (.wrongLength index wanted)
  | .ok (some rest) => .ok rest

theorem nextElement_length {first : Bool} {ts rest : List Token}
    (h : nextElement first ts = .ok (some rest)) : rest.length ≤ ts.length := by
  unfold nextElement at h
  split at h
  · cases h
  · cases h
  · split at h
    · cases h; simp
    · split at h
      · split at h
        · cases h
        · cases h
        · cases h; simp
      · cases h

theorem readKey_length {ts rest : List Token} {key : String}
    (h : readKey ts = .ok (.field key rest)) : rest.length < ts.length := by
  unfold readKey at h
  split at h
  · cases h
  · split at h
    · cases h
    · cases h; simp
  · cases h

theorem nextMember_length {first : Bool} {ts rest : List Token} {key : String}
    (h : nextMember first ts = .ok (.field key rest)) : rest.length < ts.length := by
  unfold nextMember at h
  split at h
  · cases h
  · cases h
  · split at h
    · exact readKey_length h
    · split at h
      · have := readKey_length h
        simp only [List.length_cons]
        omega
      · cases h

theorem skipValue_length {ts rest : List Token} (h : skipValue ts = .ok rest) :
    rest.length < ts.length := by
  unfold skipValue at h
  cases skipped : skip ts with
  | error d => rw [skipped] at h; cases h
  | ok tail => rw [skipped] at h; cases h; exact skip_length skipped

theorem nextMember_done_length {first : Bool} {ts rest : List Token}
    (h : nextMember first ts = .ok (.done rest)) : rest.length < ts.length := by
  unfold nextMember at h
  have key (tail : List Token) : readKey tail ≠ .ok (.done rest) := by
    unfold readKey
    split
    · simp [broken]
    · split <;> simp [broken]
    · simp [broken]
  split at h
  · cases h
  · cases h; simp
  · split at h
    · exact absurd h (key _)
    · split at h
      · exact absurd h (key _)
      · cases h

theorem element_length {wanted : Wanted} {index : Nat} {ts rest : List Token}
    (h : element wanted index ts = .ok rest) : rest.length ≤ ts.length := by
  unfold element at h
  split at h
  · cases h
  · cases h
  · cases h; exact nextElement_length (by assumption)

end LexicalRuns.Artifact.Document
