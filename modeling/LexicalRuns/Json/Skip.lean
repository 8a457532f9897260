import LexicalRuns.Json.Token

/-! Passing over a value of any kind, as `serde_json` does with one that is not asked for. The open
brackets are kept on a stack, so depth is no limit. Strings and numbers are passed over by their form
alone, and a number that ends too early counts as malformed. -/
namespace LexicalRuns.Json

inductive Bracket where
  | list
  | object
  deriving DecidableEq, Repr

/-- What has to come next inside the innermost bracket. -/
inductive Due where
  /-- A value. -/
  | value
  /-- A first element or member, or the end. -/
  | first
  /-- A comma or the end. -/
  | next
  /-- The key of a member. -/
  | key
  /-- The colon after a key. -/
  | colon
  deriving DecidableEq, Repr

def Token.opens : Token → Except Defect (Option Bracket)
  | .openObject => .ok (some .object)
  | .openList => .ok (some .list)
  | .literal _ defect | .string _ defect =>
    match defect with
    | none => .ok none
    | some d => .error d
  | .number _ none => .ok none
  | _ => .error .malformed

def skipOpening (stack : List Bracket) (t : Token) : Except Defect (Due × List Bracket) :=
  match t.opens with
  | .error d => .error d
  | .ok (some bracket) => .ok (.first, bracket :: stack)
  | .ok none => .ok (.next, stack)

def skipKey (stack : List Bracket) : Token → Except Defect (Due × List Bracket)
  | .string _ none => .ok (.colon, stack)
  | .string _ (some d) => .error d
  | _ => .error .malformed

/-- What is due after a token; nothing is once the stack is empty. -/
def skipStep : Due → List Bracket → Token → Except Defect (Due × List Bracket)
  | .value, stack, t => skipOpening stack t
  | .key, stack, t => skipKey stack t
  | .colon, stack, .colon => .ok (.value, stack)
  | .first, .list :: stack, .closeList => .ok (.next, stack)
  | .first, .list :: stack, t => skipOpening (.list :: stack) t
  | .first, .object :: stack, .closeObject => .ok (.next, stack)
  | .first, .object :: stack, t => skipKey (.object :: stack) t
  | .next, .list :: stack, .closeList => .ok (.next, stack)
  | .next, .list :: stack, .comma => .ok (.value, .list :: stack)
  | .next, .object :: stack, .closeObject => .ok (.next, stack)
  | .next, .object :: stack, .comma => .ok (.key, .object :: stack)
  | _, _, _ => .error .malformed

/-- The tokens after a value whose beginning has been read up to what is due. -/
def skipFrom : Due → List Bracket → List Token → Except Defect (List Token)
  | _, _, [] => .error .truncated
  | due, stack, t :: rest =>
    match skipStep due stack t with
    | .error d => .error d
    | .ok (_, []) => .ok rest
    | .ok (due, stack) => skipFrom due stack rest

def skip (ts : List Token) : Except Defect (List Token) := skipFrom .value [] ts

theorem skipFrom_length {due : Due} {stack : List Bracket} {ts rest : List Token}
    (h : skipFrom due stack ts = .ok rest) : rest.length < ts.length := by
  induction ts generalizing due stack with
  | nil => simp [skipFrom] at h
  | cons t ts ih =>
    simp only [skipFrom] at h
    split at h
    · cases h
    · cases h
      simp
    · have := ih h
      simp only [List.length_cons]
      omega

theorem skip_length {ts rest : List Token} (h : skip ts = .ok rest) : rest.length < ts.length :=
  skipFrom_length h

end LexicalRuns.Json
