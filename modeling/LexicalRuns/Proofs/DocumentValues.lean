import LexicalRuns.Artifact.Document.Value
import LexicalRuns.Proofs.ObjectMembers

/-! Members with a plain value, and members that are passed over. A reader of plain values takes one
value off the front, so that in a well-formed object it takes the value of its member and nothing else. -/
namespace LexicalRuns.Artifact.Document

open Json

/-! ### Plain values -/

/-- What the reader takes off the front is one value. -/
def TakesValue (read : List Token → Reading (α × List Token)) : Prop :=
  ∀ {ts a rest}, read ts = .ok (a, rest) → ∃ v, ts = v ++ rest ∧ IsValue v ∧ Yields read v (.ok a)

theorem TakesValue.yields {read : List Token → Reading (α × List Token)} (takes : TakesValue read)
    {v rest tail : List Token} {a : α} (isValue : IsValue v)
    (accepted : read (v ++ rest) = .ok (a, tail)) : Yields read v (.ok a) := by
  obtain ⟨w, same, isValue', yields⟩ := takes accepted
  obtain ⟨rfl, -⟩ := isValue.unique isValue' same
  exact yields

theorem takesValue_readU32 : TakesValue readU32 := by
  intro ts n rest accepted
  unfold readU32 at accepted
  split at accepted
  next => cases accepted
  next numeral defect tail =>
    cases defect with
    | some d => cases accepted
    | none =>
      split at accepted
      next => cases accepted
      next value integer =>
        split at accepted
        next fits =>
          cases accepted
          refine ⟨[.number numeral none], rfl, .number numeral, fun later => ?_⟩
          simp only [List.cons_append, List.nil_append, readU32, integer, if_pos fits]
          rfl
        next => cases accepted
      next => cases accepted
  next => cases accepted

theorem contentFrom_defect (d : Defect) (before : List UInt8) (pieces : List Piece)
    (bytes : List UInt8) : contentFrom (some d) before pieces ≠ .ok bytes := by
  fun_induction contentFrom (some d) before pieces <;> simp_all

theorem ruleNamed_defect {pieces : List Piece} {defect : Option Defect} {r : Rule}
    (named : ruleNamed pieces defect = .ok r) : defect = none := by
  cases defect with
  | none => rfl
  | some d =>
    cases inside : contentFrom (some d) [] pieces with
    | error => simp [ruleNamed, content, inside, broken] at named
    | ok bytes => exact absurd inside (contentFrom_defect d [] pieces bytes)

theorem expect_eq_ok {t : Token} {ts rest : List Token} (expected : expect t ts = .ok rest) :
    ts = t :: rest := by
  unfold expect at expected
  split at expected
  next => cases expected
  next =>
    split at expected
    next same =>
      cases expected
      rw [same]
    next => cases expected

theorem readUnit_eq_ok {ts rest : List Token} (read : readUnit ts = .ok rest) :
    ts = .literal .null none :: rest := by
  unfold readUnit at read
  split at read
  next => cases read
  next =>
    cases read
    rfl
  next => cases read

theorem takesValue_readRule : TakesValue readRule := by
  intro ts r rest accepted
  unfold readRule at accepted
  split at accepted
  next => cases accepted
  next pieces defect tail =>
    obtain ⟨_, named, accepted⟩ := of_bind_eq_ok accepted
    cases accepted
    cases ruleNamed_defect named
    refine ⟨[.string pieces none], rfl, .string pieces, fun later => ?_⟩
    simp only [List.cons_append, List.nil_append, readRule, named]
    rfl
  next tail =>
    unfold readRuleObject at accepted
    split at accepted
    next => cases accepted
    next pieces defect tail =>
      obtain ⟨_, named, accepted⟩ := of_bind_eq_ok accepted
      obtain ⟨_, colon, accepted⟩ := of_bind_eq_ok accepted
      obtain ⟨_, unit, accepted⟩ := of_bind_eq_ok accepted
      obtain ⟨_, close, accepted⟩ := of_bind_eq_ok accepted
      cases accepted
      cases ruleNamed_defect named
      cases expect_eq_ok colon
      cases readUnit_eq_ok unit
      cases expect_eq_ok close
      refine ⟨objectTokens [⟨pieces, [.literal .null none]⟩], rfl,
        .object _ (List.forall_mem_singleton.mpr (.literal .null)), fun later => ?_⟩
      change readRuleObject (.string pieces none :: .colon :: .literal .null none ::
        .closeObject :: later) = _
      simp only [readRuleObject, named]
      rfl
    next => cases accepted
  next => cases accepted

/-! ### Members -/

/-- The rest of a member with the value of a field, which must not be filled. -/
def readField (filled : Bool) (key : String) (read : List Token → Reading (α × List Token))
    (set : α → State) (ts : List Token) : Reading (State × List Token) :=
  if filled then wrong (.duplicateField key)
  else do
    let rest ← expect .colon ts
    let (a, rest) ← read rest
    return (set a, rest)

def passOver (state : State) (ts : List Token) : Reading (State × List Token) := do
  let rest ← expect .colon ts
  let rest ← skipValue rest
  return (state, rest)

variable {State : Type} {read : List Token → Reading (α × List Token)} {v : List Token}

theorem readField_yields {x : Reading α} (yields : Yields read v x) (filled : Bool) (key : String)
    (set : α → State) :
    Yields (fun ts => readField filled key read set (.colon :: ts)) v
      (if filled then wrong (.duplicateField key) else x.map set) := by
  intro rest
  cases filled with
  | true => rfl
  | false =>
    change (read (v ++ rest) >>= fun taken => pure (set taken.1, taken.2)) = _
    rw [yields]
    cases x <;> rfl

theorem exists_value {filled : Bool} {key : String} {set : α → State} {state : State}
    {ts tail : List Token}
    (accepted : readField filled key read set (.colon :: ts) = .ok (state, tail)) :
    ∃ a rest, read ts = .ok (a, rest) := by
  cases filled with
  | true => cases accepted
  | false =>
    obtain ⟨_, colon, accepted⟩ := of_bind_eq_ok accepted
    cases expect_eq_ok colon
    obtain ⟨⟨a, rest⟩, accepted, -⟩ := of_bind_eq_ok accepted
    exact ⟨a, rest, accepted⟩

theorem passOver_yields (isValue : IsValue v) (state : State) :
    Yields (fun ts => passOver state (.colon :: ts)) v (.ok state) := by
  intro rest
  have skipped : skipValue (v ++ rest) = .ok rest := by
    rw [skipValue, isValue.skip_append]
    rfl
  change (skipValue (v ++ rest) >>= fun rest => pure (state, rest)) = _
  rw [skipped]
  rfl

end LexicalRuns.Artifact.Document
