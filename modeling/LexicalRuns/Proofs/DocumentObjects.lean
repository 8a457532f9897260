import LexicalRuns.Artifact.Document.Reader
import LexicalRuns.Proofs.DocumentValues

/-! Runs and tables that are written as objects. The fields of a run are plain values, the field of a
table is a list of runs; each of the two loops through members obeys the laws of filling a field once. -/
namespace LexicalRuns.Artifact.Document

open Json

/-! ### Runs -/

inductive RunField where
  | start (value : Nat)
  | length (value : Nat)
  | rule (value : Rule)

def RunField.name : RunField → String
  | .start _ => "code_point"
  | .length _ => "length"
  | .rule _ => "rule"

def RunFields.put (f : RunFields) : RunField → Reading RunFields
  | .start n =>
    if f.start.isSome then wrong (.duplicateField "code_point")
    else .ok { f with start := some n }
  | .length n =>
    if f.length.isSome then wrong (.duplicateField "length") else .ok { f with length := some n }
  | .rule r =>
    if f.rule.isSome then wrong (.duplicateField "rule") else .ok { f with rule := some r }

theorem readRunMembers_eq (f : RunFields) (first : Bool) (ts : List Token) :
    readRunMembers f first ts =
      turn RunFields.readMember RunFields.finish readRunMembers f first ts := by
  rw [readRunMembers, turn]
  split
  next failed => rw [failed]
  next done =>
    rw [done]
    cases f.finish <;> rfl
  next field =>
    simp only [field]
    split
    next failed => rw [failed]
    next member => rw [member]

variable {f g h : RunFields} {x y : RunField}

/-- All that filling a field can do. -/
inductive RunFields.Filled (f : RunFields) : RunField → RunFields → Prop
  | start (n : Nat) (absent : f.start = none) : f.Filled (.start n) { f with start := some n }
  | length (n : Nat) (absent : f.length = none) : f.Filled (.length n) { f with length := some n }
  | rule (r : Rule) (absent : f.rule = none) : f.Filled (.rule r) { f with rule := some r }

theorem RunFields.put_eq_ok_iff : f.put x = .ok g ↔ f.Filled x g := by
  constructor
  · intro filled
    cases x with
    | start n =>
      simp only [put] at filled
      split at filled
      next => cases filled
      next absent =>
        cases filled
        exact .start n (Option.not_isSome_iff_eq_none.mp absent)
    | length n =>
      simp only [put] at filled
      split at filled
      next => cases filled
      next absent =>
        cases filled
        exact .length n (Option.not_isSome_iff_eq_none.mp absent)
    | rule r =>
      simp only [put] at filled
      split at filled
      next => cases filled
      next absent =>
        cases filled
        exact .rule r (Option.not_isSome_iff_eq_none.mp absent)
  · intro filled
    cases filled with
    | start n absent | length n absent | rule r absent => simp [put, absent]

theorem RunFields.put_comm (one : f.put x = .ok g) (two : g.put y = .ok h) :
    ∃ g', f.put y = .ok g' ∧ g'.put x = .ok h := by
  simp only [put_eq_ok_iff] at one two ⊢
  cases one with
  | start n absent =>
    cases two with
    | start _ again => cases again
    | length m free => exact ⟨_, .length m free, .start n absent⟩
    | rule r free => exact ⟨_, .rule r free, .start n absent⟩
  | length n absent =>
    cases two with
    | start m free => exact ⟨_, .start m free, .length n absent⟩
    | length _ again => cases again
    | rule r free => exact ⟨_, .rule r free, .length n absent⟩
  | rule r absent =>
    cases two with
    | start m free => exact ⟨_, .start m free, .rule r absent⟩
    | length m free => exact ⟨_, .length m free, .rule r absent⟩
    | rule _ again => cases again

theorem RunFields.put_again (filled : f.put x = .ok g) :
    g.put x = wrong (.duplicateField x.name) := by
  cases put_eq_ok_iff.mp filled <;> rfl

theorem RunFields.finish_before {r : RawRun} (filled : f.put x = .ok g)
    (finished : g.finish = .ok r) : f.finish = wrong (.missingField x.name) := by
  obtain ⟨start, length, rule⟩ := f
  cases put_eq_ok_iff.mp filled with
  | start n absent =>
    cases absent
    rfl
  | length n absent =>
    cases absent
    cases start with
    | none => cases finished
    | some => rfl
  | rule r absent =>
    cases absent
    cases start with
    | none => cases finished
    | some =>
      cases length with
      | none => cases finished
      | some => rfl

def runFields : List String := ["code_point", "length", "rule"]

theorem RunFields.readMember_eq (f : RunFields) (key : String) (ts : List Token) :
    f.readMember key ts =
      if key = "code_point" then
        readField f.start.isSome key readU32 (fun n => { f with start := some n }) ts
      else if key = "length" then
        readField f.length.isSome key readU32 (fun n => { f with length := some n }) ts
      else if key = "rule" then
        readField f.rule.isSome key readRule (fun r => { f with rule := some r }) ts
      else passOver f ts := rfl

theorem RunFields.member_other (f : RunFields) {key : String} {v : List Token}
    (unknown : key ∉ runFields) (isValue : IsValue v) :
    Yields (fun ts => f.readMember key (.colon :: ts)) v (.ok f) := by
  simp only [runFields, List.mem_cons, List.not_mem_nil, or_false, not_or] at unknown
  obtain ⟨notStart, notLength, notRule⟩ := unknown
  simp only [readMember_eq, if_neg notStart, if_neg notLength, if_neg notRule]
  exact passOver_yields isValue f

def runObject : ObjectReader RunFields RunField RawRun where
  empty := {}
  member := RunFields.readMember
  finish := RunFields.finish
  members := readRunMembers
  members_eq := readRunMembers_eq
  fields := runFields
  member_other := RunFields.member_other
  name := RunField.name
  put := RunFields.put
  put_comm := RunFields.put_comm
  put_again := RunFields.put_again
  finish_before := RunFields.finish_before

variable {p : Pair} {ps : List Pair}

theorem holds_start {n : Nat} (named : content p.name none = .ok "code_point")
    (yields : Yields readU32 p.value (.ok n)) : runObject.Holds p (some (.start n)) :=
  ⟨_, named, rfl, fun f => readField_yields yields f.start.isSome "code_point"
    fun n => RunFields.mk (some n) f.length f.rule⟩

theorem holds_length {n : Nat} (named : content p.name none = .ok "length")
    (yields : Yields readU32 p.value (.ok n)) : runObject.Holds p (some (.length n)) :=
  ⟨_, named, rfl, fun f => readField_yields yields f.length.isSome "length"
    fun n => RunFields.mk f.start (some n) f.rule⟩

theorem holds_rule {r : Rule} (named : content p.name none = .ok "rule")
    (yields : Yields readRule p.value (.ok r)) : runObject.Holds p (some (.rule r)) :=
  ⟨_, named, rfl, fun f => readField_yields yields f.rule.isSome "rule"
    fun r => RunFields.mk f.start f.length (some r)⟩

/-- A member that has been read once can be read always. -/
theorem runObject_shows (isValue : IsValue p.value) :
    runObject.Shows p (runObject.Readable p) := by
  intro key f rest g tail named accepted
  refine ⟨isValue, ?_⟩
  change f.readMember key _ = _ at accepted
  rw [RunFields.readMember_eq] at accepted
  split at accepted
  next start =>
    obtain ⟨n, _, read⟩ := exists_value accepted
    exact ⟨_, holds_start (start ▸ named) (takesValue_readU32.yields isValue read)⟩
  next notStart =>
    split at accepted
    next length =>
      obtain ⟨n, _, read⟩ := exists_value accepted
      exact ⟨_, holds_length (length ▸ named) (takesValue_readU32.yields isValue read)⟩
    next notLength =>
      split at accepted
      next rule =>
        obtain ⟨r, _, read⟩ := exists_value accepted
        exact ⟨_, holds_rule (rule ▸ named) (takesValue_readRule.yields isValue read)⟩
      next notRule =>
        have unknown : key ∉ runFields := by
          simp [runFields, notStart, notLength, notRule]
        exact ⟨none, ObjectReader.holds_other named unknown isValue⟩

theorem readRun_yields (readable : ∀ p ∈ ps, runObject.Readable p) :
    Yields readRun (objectTokens ps) (runObject.outcome ps) :=
  fun rest => ObjectReader.members_pairs readable runObject.empty true rest

theorem readable_of_readRun (values : ∀ p ∈ ps, IsValue p.value) {rest tail : List Token}
    {r : RawRun} (accepted : readRun (objectTokens ps ++ rest) = .ok (r, tail)) :
    ∀ p ∈ ps, runObject.Readable p := by
  have read : runObject.members {} true
      (remaining true ((ps.map id).map Pair.tokens) ++ .closeObject :: rest) = .ok (r, tail) := by
    rw [List.map_id]
    rw [objectTokens, List.append_assoc] at accepted
    exact accepted
  exact ObjectReader.forall_of_members (fun p member => runObject_shows (values p member))
    (fun _ readable => readable) read

/-! ### Lists of runs -/

variable {records : List (List Pair)}

theorem readRuns_eq (before : List RawRun) (ts : List Token) :
    readRuns before ts =
      match nextElement before.isEmpty ts with
      | .error fault => .error fault
      | .ok none => (expect .closeList ts).map (before.reverse, ·)
      | .ok (some tail) =>
        match readRun tail with
        | .error fault => .error fault
        | .ok (r, rest) => readRuns (r :: before) rest := by
  rw [readRuns]
  split
  next failed => rw [failed]
  next done =>
    rw [done]
    cases expect .closeList ts <;> rfl
  next next =>
    simp only [next]
    split
    next failed => rw [failed]
    next element => rw [element]

theorem nextElement_cons (first : Bool) (ps : List Pair) (records : List (List Pair))
    (rest : List Token) :
    nextElement first (remaining first ((ps :: records).map objectTokens) ++ rest) =
      .ok (some (objectTokens ps ++ (remaining false (records.map objectTokens) ++ rest))) := by
  cases first <;> simp [remaining, separated, objectTokens, nextElement]

theorem nextElement_nil (first : Bool) (rest : List Token) :
    nextElement first (remaining first [] ++ .closeList :: rest) = .ok none := by
  cases first <;> rfl

theorem readRuns_yields (readable : ∀ ps ∈ records, ∀ p ∈ ps, runObject.Readable p)
    (before : List RawRun) :
    Yields (readRuns before) (remaining before.isEmpty (records.map objectTokens) ++ [.closeList])
      ((records.mapM runObject.outcome).map (before.reverse ++ ·)) := by
  intro rest
  rw [List.append_assoc, List.singleton_append]
  induction records generalizing before with
  | nil =>
    rw [readRuns_eq, List.map_nil, nextElement_nil]
    cases before <;> simp [remaining, separated, expect, Except.map, pure, Except.pure]
  | cons ps later ih =>
    obtain ⟨here, readable⟩ := List.forall_mem_cons.mp readable
    rw [readRuns_eq, nextElement_cons]
    simp only [readRun_yields here _, List.mapM_cons]
    cases runObject.outcome ps with
    | error => rfl
    | ok r =>
      refine (ih readable (r :: before)).trans ?_
      change _ = Except.map _ (Except.map _
        (later.mapM runObject.outcome >>= fun rs => pure (r :: rs)))
      cases later.mapM runObject.outcome with
      | error => rfl
      | ok rs => simp [Except.map, bind, Except.bind, pure, Except.pure]

theorem readList_yields (readable : ∀ ps ∈ records, ∀ p ∈ ps, runObject.Readable p) :
    Yields readList (listTokens (records.map objectTokens))
      (records.mapM runObject.outcome) := by
  intro rest
  refine (readRuns_yields readable [] rest).trans ?_
  cases records.mapM runObject.outcome <;> rfl

theorem readable_of_readRuns (values : ∀ ps ∈ records, ∀ p ∈ ps, IsValue p.value)
    (before : List RawRun) {runs : List RawRun} {rest tail : List Token}
    (accepted : readRuns before
      (remaining before.isEmpty (records.map objectTokens) ++ rest) = .ok (runs, tail)) :
    ∀ ps ∈ records, ∀ p ∈ ps, runObject.Readable p := by
  induction records generalizing before with
  | nil => exact List.forall_mem_nil _
  | cons ps later ih =>
    obtain ⟨here, values⟩ := List.forall_mem_cons.mp values
    rw [readRuns_eq, nextElement_cons] at accepted
    simp only at accepted
    split at accepted
    next => cases accepted
    next r rest' element =>
      have readable := readable_of_readRun here element
      rw [readRun_yields readable] at element
      cases run : runObject.outcome ps with
      | error =>
        rw [run] at element
        cases element
      | ok =>
        rw [run] at element
        cases element
        exact List.forall_mem_cons.mpr ⟨readable, ih values (r :: before) accepted⟩

theorem readable_of_readList (values : ∀ ps ∈ records, ∀ p ∈ ps, IsValue p.value)
    {runs : List RawRun} {rest tail : List Token}
    (accepted : readList (listTokens (records.map objectTokens) ++ rest) = .ok (runs, tail)) :
    ∀ ps ∈ records, ∀ p ∈ ps, runObject.Readable p := by
  rw [listTokens, List.append_assoc, List.cons_append] at accepted
  exact readable_of_readRuns values [] accepted

/-! ### Tables -/

def tableFields : List String := ["runs"]

def putRuns (runs : Option (List RawRun)) (x : Reading (List RawRun)) :
    Reading (Option (List RawRun)) :=
  if runs.isSome then wrong (.duplicateField "runs") else x.map some

def finishTable : Option (List RawRun) → Reading (List RawRun)
  | none => wrong (.missingField "runs")
  | some runs => .ok runs

theorem readTableMembers_eq (runs : Option (List RawRun)) (first : Bool) (ts : List Token) :
    readTableMembers runs first ts =
      turn readTableMember finishTable readTableMembers runs first ts := by
  rw [readTableMembers, turn]
  split
  next failed => rw [failed]
  next done =>
    rw [done]
    cases runs <;> rfl
  next field =>
    simp only [field]
    split
    next failed => rw [failed]
    next member => rw [member]

theorem readTableMember_eq (runs : Option (List RawRun)) (key : String) (ts : List Token) :
    readTableMember runs key ts =
      if key = "runs" then readField runs.isSome key readList some ts else passOver runs ts := rfl

theorem exists_of_putRuns {before after : Option (List RawRun)} {x : Reading (List RawRun)}
    (filled : putRuns before x = .ok after) :
    before = none ∧ ∃ runs, x = .ok runs ∧ after = some runs := by
  cases before with
  | some => cases filled
  | none =>
    cases x with
    | error => cases filled
    | ok runs =>
      cases filled
      exact ⟨rfl, runs, rfl, rfl⟩

def tableObject : ObjectReader (Option (List RawRun)) (Reading (List RawRun)) (List RawRun) where
  empty := none
  member := readTableMember
  finish := finishTable
  members := readTableMembers
  members_eq := readTableMembers_eq
  fields := tableFields
  member_other := by
    intro runs key v unknown isValue
    have other : key ≠ "runs" := fun same => unknown (List.mem_singleton.mpr same)
    simp only [readTableMember_eq, if_neg other]
    exact passOver_yields isValue runs
  name := fun _ => "runs"
  put := putRuns
  put_comm := by
    intro s t u x y one two
    obtain ⟨-, runs, -, rfl⟩ := exists_of_putRuns one
    cases two
  put_again := by
    intro s t x filled
    obtain ⟨-, runs, -, rfl⟩ := exists_of_putRuns filled
    rfl
  finish_before := by
    intro s t x r filled _
    obtain ⟨rfl, -⟩ := exists_of_putRuns filled
    rfl

end LexicalRuns.Artifact.Document
