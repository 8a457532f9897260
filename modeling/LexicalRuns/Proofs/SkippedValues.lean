import LexicalRuns.Json.Skip

/-! Values as they stand in a list of tokens. Skipping takes exactly one value off the front,
whatever its depth and whatever comes after it, so that no value is the beginning of another. -/
namespace LexicalRuns.Json

def separated : List (List Token) → List Token
  | [] => []
  | first :: rest => first ++ rest.flatMap (.comma :: ·)

structure Pair where
  name : List Piece
  value : List Token
  deriving DecidableEq, Repr

def Pair.tokens (p : Pair) : List Token := .string p.name none :: .colon :: p.value

def listTokens (elements : List (List Token)) : List Token :=
  .openList :: separated elements ++ [.closeList]

def objectTokens (members : List Pair) : List Token :=
  .openObject :: separated (members.map Pair.tokens) ++ [.closeObject]

inductive IsValue : List Token → Prop
  | literal (value : Literal) : IsValue [.literal value none]
  | number (n : Numeral) : IsValue [.number n none]
  | string (pieces : List Piece) : IsValue [.string pieces none]
  | list (elements : List (List Token)) (values : ∀ v ∈ elements, IsValue v) :
      IsValue (listTokens elements)
  | object (members : List Pair) (values : ∀ p ∈ members, IsValue p.value) :
      IsValue (objectTokens members)

/-- Goes on after a value that stands inside the given brackets. -/
def skipOn : List Bracket → List Token → Except Defect (List Token)
  | [], ts => .ok ts
  | bracket :: stack, ts => skipFrom .next (bracket :: stack) ts

/-- The tokens are skipped as one value, inside all brackets and before all other tokens. -/
def Skipped (v : List Token) : Prop :=
  ∀ stack rest, skipFrom .value stack (v ++ rest) = skipOn stack rest

variable {due due' : Due} {stack stack' : List Bracket} {bracket : Bracket} {t : Token}
  {rest : List Token}

theorem skipFrom_of_step (step : skipStep due stack t = .ok (due', bracket :: stack')) :
    skipFrom due stack (t :: rest) = skipFrom due' (bracket :: stack') rest := by
  simp only [skipFrom, step]

theorem skipFrom_of_end (step : skipStep due stack t = .ok (.next, stack')) :
    skipFrom due stack (t :: rest) = skipOn stack' rest := by
  cases stack' <;> simp only [skipFrom, step, skipOn]

theorem IsValue.exists_cons {v : List Token} (isValue : IsValue v) :
    ∃ t tail, v = t :: tail ∧ t ≠ .closeList := by
  cases isValue <;> exact ⟨_, _, rfl, nofun⟩

/-- The first element of a list is a value like every other one. -/
theorem skipFrom_first {v : List Token} (isValue : IsValue v) :
    skipFrom .first (.list :: stack) (v ++ rest) = skipFrom .value (.list :: stack) (v ++ rest) := by
  obtain ⟨t, tail, rfl, other⟩ := isValue.exists_cons
  have same : skipStep .first (.list :: stack) t = skipStep .value (.list :: stack) t := by
    cases t with
    | closeList => exact absurd rfl other
    | _ => rfl
  simp only [List.cons_append, skipFrom, same]

theorem skipFrom_furtherElements {elements : List (List Token)}
    (skipped : ∀ v ∈ elements, Skipped v) :
    skipFrom .next (.list :: stack) (elements.flatMap (.comma :: ·) ++ .closeList :: rest) =
      skipOn stack rest := by
  induction elements with
  | nil => exact skipFrom_of_end rfl
  | cons v later ih =>
    obtain ⟨here, skipped⟩ := List.forall_mem_cons.mp skipped
    rw [List.flatMap_cons, List.append_assoc, List.cons_append, skipFrom_of_step rfl, here]
    exact ih skipped

theorem skipFrom_pair {p : Pair} (skipped : Skipped p.value) :
    skipFrom .key (.object :: stack) (p.tokens ++ rest) = skipFrom .next (.object :: stack) rest := by
  rw [Pair.tokens, List.cons_append, List.cons_append, skipFrom_of_step rfl, skipFrom_of_step rfl,
    skipped]
  rfl

theorem skipFrom_furtherMembers {members : List Pair}
    (skipped : ∀ p ∈ members, Skipped p.value) :
    skipFrom .next (.object :: stack)
      ((members.map Pair.tokens).flatMap (.comma :: ·) ++ .closeObject :: rest) =
        skipOn stack rest := by
  induction members with
  | nil => exact skipFrom_of_end rfl
  | cons p later ih =>
    obtain ⟨here, skipped⟩ := List.forall_mem_cons.mp skipped
    rw [List.map_cons, List.flatMap_cons, List.append_assoc, List.cons_append,
      skipFrom_of_step rfl, skipFrom_pair here]
    exact ih skipped

theorem skipped_listTokens {elements : List (List Token)} (values : ∀ v ∈ elements, IsValue v)
    (skipped : ∀ v ∈ elements, Skipped v) : Skipped (listTokens elements) := by
  intro stack rest
  rw [listTokens, List.append_assoc, List.cons_append, skipFrom_of_step rfl]
  cases elements with
  | nil => exact skipFrom_of_end rfl
  | cons v later =>
    obtain ⟨isValue, -⟩ := List.forall_mem_cons.mp values
    obtain ⟨here, skipped⟩ := List.forall_mem_cons.mp skipped
    rw [separated, List.append_assoc, skipFrom_first isValue, here]
    exact skipFrom_furtherElements skipped

theorem skipped_objectTokens {members : List Pair} (skipped : ∀ p ∈ members, Skipped p.value) :
    Skipped (objectTokens members) := by
  intro stack rest
  rw [objectTokens, List.append_assoc, List.cons_append, skipFrom_of_step rfl]
  cases members with
  | nil => exact skipFrom_of_end rfl
  | cons p later =>
    obtain ⟨here, skipped⟩ := List.forall_mem_cons.mp skipped
    rw [List.map_cons, separated, List.append_assoc]
    -- a name is due at the start of an object as it is after a comma
    exact (skipFrom_pair here).trans (skipFrom_furtherMembers skipped)

theorem IsValue.skipped {v : List Token} (isValue : IsValue v) : Skipped v := by
  induction isValue with
  | literal => exact fun _ _ => skipFrom_of_end rfl
  | number => exact fun _ _ => skipFrom_of_end rfl
  | string => exact fun _ _ => skipFrom_of_end rfl
  | list elements values ih => exact skipped_listTokens values ih
  | object members values ih => exact skipped_objectTokens ih

theorem IsValue.skip_append {v : List Token} (isValue : IsValue v) (rest : List Token) :
    skip (v ++ rest) = .ok rest :=
  isValue.skipped [] rest

theorem IsValue.unique {v w tail : List Token} (first : IsValue v) (second : IsValue w)
    (same : v ++ rest = w ++ tail) : v = w ∧ rest = tail := by
  have rests : (Except.ok rest : Except Defect (List Token)) = .ok tail := by
    rw [← first.skip_append, same, second.skip_append]
  cases rests
  exact ⟨List.append_cancel_right same, rfl⟩

end LexicalRuns.Json
