import LexicalRuns.Artifact.Document.Structure
import LexicalRuns.Run

/-! Runs in a document, as the reader that `serde` derives for a structure takes them. An object has
the fields of a run as members in any order, each once, and further ones that are passed over; the
first field that is missing, in the order of the structure, is reported once the object ends. A list
has the three fields and nothing else. -/
namespace LexicalRuns.Artifact.Document

open Json

structure RunFields where
  start : Option Nat := none
  length : Option Nat := none
  rule : Option Rule := none
  deriving DecidableEq, Repr

def RunFields.finish (f : RunFields) : Reading RawRun :=
  match f.start, f.length, f.rule with
  | some start, some length, some rule => .ok ⟨start, length, rule⟩
  | none, _, _ => wrong (.missingField "code_point")
  | some _, none, _ => wrong (.missingField "length")
  | some _, some _, none => wrong (.missingField "rule")

def RunFields.readMember (f : RunFields) (key : String) (rest : List Token) : Reading (RunFields × List Token) :=
  if key = "code_point" then
    if f.start.isSome then wrong (.duplicateField key)
    else do
      let rest ← expect .colon rest
      let (start, rest) ← readU32 rest
      return ({ f with start := some start }, rest)
  else if key = "length" then
    if f.length.isSome then wrong (.duplicateField key)
    else do
      let rest ← expect .colon rest
      let (length, rest) ← readU32 rest
      return ({ f with length := some length }, rest)
  else if key = "rule" then
    if f.rule.isSome then wrong (.duplicateField key)
    else do
      let rest ← expect .colon rest
      let (rule, rest) ← readRule rest
      return ({ f with rule := some rule }, rest)
  else do
    let rest ← expect .colon rest
    let rest ← skipValue rest
    return (f, rest)

theorem RunFields.readMember_length {f g : RunFields} {key : String} {ts rest : List Token}
    (h : f.readMember key ts = .ok (g, rest)) : rest.length < ts.length := by
  unfold RunFields.readMember at h
  split at h
  · split at h
    · cases h
    · obtain ⟨_, colon, h⟩ := of_bind_eq_ok h
      obtain ⟨_, value, h⟩ := of_bind_eq_ok h
      cases h
      exact Nat.lt_trans (readU32_length value) (expect_length colon)
  split at h
  · split at h
    · cases h
    · obtain ⟨_, colon, h⟩ := of_bind_eq_ok h
      obtain ⟨_, value, h⟩ := of_bind_eq_ok h
      cases h
      exact Nat.lt_trans (readU32_length value) (expect_length colon)
  split at h
  · split at h
    · cases h
    · obtain ⟨_, colon, h⟩ := of_bind_eq_ok h
      obtain ⟨_, value, h⟩ := of_bind_eq_ok h
      cases h
      exact Nat.lt_trans (readRule_length value) (expect_length colon)
  · obtain ⟨_, colon, h⟩ := of_bind_eq_ok h
    obtain ⟨_, value, h⟩ := of_bind_eq_ok h
    cases h
    exact Nat.lt_trans (skipValue_length value) (expect_length colon)

def readRunMembers (f : RunFields) (first : Bool) (ts : List Token) :
    Reading (RawRun × List Token) :=
  match _next : nextMember first ts with
  | .error fault => .error fault
  | .ok (.done rest) =>
    match f.finish with
    | .error fault => .error fault
    | .ok run => .ok (run, rest)
  | .ok (.field key tail) =>
    match _member : f.readMember key tail with
    | .error fault => .error fault
    | .ok (g, rest) => readRunMembers g false rest
termination_by ts.length
decreasing_by exact Nat.lt_trans (RunFields.readMember_length _member) (nextMember_length _next)

def readRunElements (ts : List Token) : Reading (RawRun × List Token) := do
  let ts ← element .run 0 ts
  let (start, ts) ← readU32 ts
  let ts ← element .run 1 ts
  let (length, ts) ← readU32 ts
  let ts ← element .run 2 ts
  let (rule, ts) ← readRule ts
  let rest ← expect .closeList ts
  return (⟨start, length, rule⟩, rest)

def readRun : List Token → Reading (RawRun × List Token)
  | [] => broken .truncated
  | .openList :: rest => readRunElements rest
  | .openObject :: rest => readRunMembers {} true rest
  | t :: _ => .error (t.mismatch .run)

theorem readRunMembers_length {f : RunFields} {first : Bool} {ts rest : List Token} {r : RawRun}
    (h : readRunMembers f first ts = .ok (r, rest)) : rest.length < ts.length := by
  fun_induction readRunMembers f first ts with
  | case1 => cases h
  | case2 => cases h
  | case3 f first ts tail next run finished =>
    cases h
    exact nextMember_done_length next
  | case4 => cases h
  | case5 f first ts key tail next g middle member ih =>
    exact Nat.lt_trans (ih h)
      (Nat.lt_trans (RunFields.readMember_length member) (nextMember_length next))

theorem readRun_length {ts rest : List Token} {r : RawRun} (h : readRun ts = .ok (r, rest)) :
    rest.length < ts.length := by
  unfold readRun at h
  split at h
  · cases h
  · obtain ⟨_, first, h⟩ := of_bind_eq_ok h
    obtain ⟨_, start, h⟩ := of_bind_eq_ok h
    obtain ⟨_, second, h⟩ := of_bind_eq_ok h
    obtain ⟨_, length, h⟩ := of_bind_eq_ok h
    obtain ⟨_, third, h⟩ := of_bind_eq_ok h
    obtain ⟨_, rule, h⟩ := of_bind_eq_ok h
    obtain ⟨_, close, h⟩ := of_bind_eq_ok h
    cases h
    have := element_length first
    have := readU32_length start
    have := element_length second
    have := readU32_length length
    have := element_length third
    have := readRule_length rule
    have := expect_length close
    simp only [List.length_cons]
    omega
  · have := readRunMembers_length h
    simp only [List.length_cons]
    omega
  · cases h

end LexicalRuns.Artifact.Document
