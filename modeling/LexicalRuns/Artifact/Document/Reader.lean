import LexicalRuns.Artifact.Document.RunReader

/-! Reading tables from JSON documents, as `from_slice` of `serde_json` does with the reader that `serde`
derives. The first fault in the order of the text is reported; the runs are checked, in order, once the
whole text is read. -/
namespace LexicalRuns.Artifact.Document

open Json

/-- The rest of a list of runs after those read, the last of them first. -/
def readRuns (before : List RawRun) (ts : List Token) : Reading (List RawRun × List Token) :=
  match _next : nextElement before.isEmpty ts with
  | .error fault => .error fault
  | .ok none =>
    match expect .closeList ts with
    | .error fault => .error fault
    | .ok rest => .ok (before.reverse, rest)
  | .ok (some tail) =>
    match _element : readRun tail with
    | .error fault => .error fault
    | .ok (run, rest) => readRuns (run :: before) rest
termination_by ts.length
decreasing_by exact Nat.lt_of_lt_of_le (readRun_length _element) (nextElement_length _next)

def readList : List Token → Reading (List RawRun × List Token)
  | [] => broken .truncated
  | .openList :: rest => readRuns [] rest
  | t :: _ => .error (t.mismatch .list)

theorem readRuns_length {before runs : List RawRun} {ts rest : List Token}
    (h : readRuns before ts = .ok (runs, rest)) : rest.length < ts.length := by
  fun_induction readRuns before ts with
  | case1 => cases h
  | case2 => cases h
  | case3 before ts next tail closed =>
    cases h
    exact expect_length closed
  | case4 => cases h
  | case5 before ts tail next run middle element ih =>
    exact Nat.lt_of_lt_of_le (Nat.lt_trans (ih h) (readRun_length element))
      (nextElement_length next)

theorem readList_length {runs : List RawRun} {ts rest : List Token}
    (h : readList ts = .ok (runs, rest)) : rest.length < ts.length := by
  unfold readList at h
  split at h
  · cases h
  · have := readRuns_length h
    simp only [List.length_cons]
    omega
  · cases h

def readTableMember (runs : Option (List RawRun)) (key : String) (rest : List Token) :
    Reading (Option (List RawRun) × List Token) :=
  if key = "runs" then
    if runs.isSome then wrong (.duplicateField key)
    else do
      let rest ← expect .colon rest
      let (runs, rest) ← readList rest
      return (some runs, rest)
  else do
    let rest ← expect .colon rest
    let rest ← skipValue rest
    return (runs, rest)

theorem readTableMember_length {before after : Option (List RawRun)} {key : String}
    {ts rest : List Token} (h : readTableMember before key ts = .ok (after, rest)) :
    rest.length < ts.length := by
  unfold readTableMember at h
  split at h
  · split at h
    · cases h
    · obtain ⟨_, colon, h⟩ := of_bind_eq_ok h
      obtain ⟨_, value, h⟩ := of_bind_eq_ok h
      cases h
      exact Nat.lt_trans (readList_length value) (expect_length colon)
  · obtain ⟨_, colon, h⟩ := of_bind_eq_ok h
    obtain ⟨_, value, h⟩ := of_bind_eq_ok h
    cases h
    exact Nat.lt_trans (skipValue_length value) (expect_length colon)

def readTableMembers (runs : Option (List RawRun)) (first : Bool) (ts : List Token) :
    Reading (List RawRun × List Token) :=
  match _next : nextMember first ts with
  | .error fault => .error fault
  | .ok (.done rest) =>
    match runs with
    | none => wrong (.missingField "runs")
    | some runs => .ok (runs, rest)
  | .ok (.field key tail) =>
    match _member : readTableMember runs key tail with
    | .error fault => .error fault
    | .ok (runs, rest) => readTableMembers runs false rest
termination_by ts.length
decreasing_by exact Nat.lt_trans (readTableMember_length _member) (nextMember_length _next)

def readTableElements (ts : List Token) : Reading (List RawRun × List Token) := do
  let ts ← element .table 0 ts
  let (runs, ts) ← readList ts
  let rest ← expect .closeList ts
  return (runs, rest)

def readTable : List Token → Reading (List RawRun × List Token)
  | [] => broken .truncated
  | .openList :: rest => readTableElements rest
  | .openObject :: rest => readTableMembers none true rest
  | t :: _ => .error (t.mismatch .table)

/-- The runs of a document as they are written down. Nothing may follow the table. -/
def readRaw (bytes : List UInt8) : Reading (List RawRun) :=
  match readTable (tokens bytes) with
  | .error fault => .error fault
  | .ok (runs, []) => .ok runs
  | .ok (_, _ :: _) => broken .malformed

def read (bytes : List UInt8) : Except LexicalRuns.Fault (List Run) :=
  match readRaw bytes with
  | .error fault => .error (.json fault)
  | .ok runs => runs.mapM RawRun.check

end LexicalRuns.Artifact.Document
