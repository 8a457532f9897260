import LexicalRuns.Run

/-! Tables: runs in order, searched by halving. -/
namespace LexicalRuns

def Ordered (runs : List Run) : Prop := runs.Pairwise fun a b => a.stop ≤ b.start

instance (runs : List Run) : Decidable (Ordered runs) :=
  inferInstanceAs (Decidable (runs.Pairwise fun a b => a.stop ≤ b.start))

def ruleAt (runs : List Run) (c : Nat) : Option Rule :=
  (runs.find? (·.contains c)).map Run.rule

/-- Compares neighbours; `index` is the place of the second run of the first pair. -/
def checkOrderFrom (index : Nat) : List Run → Except Fault Unit
  | a :: b :: rest =>
    if b.start < a.stop then .error (.unordered index b.start a.stop)
    else checkOrderFrom (index + 1) (b :: rest)
  | _ => .ok ()

def checkOrder (runs : List Run) : Except Fault Unit := checkOrderFrom 1 runs

/-- A run after the second of two ordered neighbours also comes after the first. -/
theorem ordered_of_checkOrderFrom {index : Nat} {runs : List Run}
    (h : checkOrderFrom index runs = .ok ()) : Ordered runs := by
  induction runs generalizing index with
  | nil => exact .nil
  | cons a rest ih =>
    cases rest with
    | nil => exact List.pairwise_singleton _ a
    | cons b rest =>
      simp only [checkOrderFrom] at h
      split at h
      · cases h
      · have later := ih h
        refine List.pairwise_cons.mpr ⟨?_, later⟩
        intro c member
        rcases List.mem_cons.mp member with rfl | member
        · omega
        · have next := (List.pairwise_cons.mp later).1 c member
          have : b.start ≤ b.stop := Nat.le_add_right _ _
          omega

structure Table where
  runs : Array Run
  ordered : Ordered runs.toList

namespace Table

def ofRuns (runs : List Run) : Except Fault Table :=
  match h : checkOrder runs with
  | .error fault => .error fault
  | .ok () => .ok ⟨runs.toArray, by simpa using ordered_of_checkOrderFrom h⟩

/-- How many runs in the part from `low` to `high` and before it start at or before `c`. -/
def search (runs : Array Run) (c low high : Nat) (bound : high ≤ runs.size) : Nat :=
  if h : low < high then
    let middle := (low + high) / 2
    have inside : middle < runs.size := by omega
    if runs[middle].start ≤ c then search runs c (middle + 1) high bound
    else search runs c low middle (by omega)
  else low
termination_by high - low

/-- Only the last run that starts at or before `c` can contain it. -/
def lookup (t : Table) (c : Nat) : Option Rule :=
  match search t.runs c 0 t.runs.size (Nat.le_refl _) with
  | 0 => none
  | index + 1 =>
    match t.runs[index]? with
    | none => none
    | some run => if run.contains c then some run.rule else none

def isWhitespace (t : Table) (c : Nat) : Bool := t.lookup c = some .whitespace

def isIdentifierStart (t : Table) (c : Nat) : Bool := t.lookup c = some .identifierStart

/-- Both identifier rules count. -/
def isIdentifierPart (t : Table) (c : Nat) : Bool := (t.lookup c).any Rule.isIdentifier

def expand (t : Table) : List (Nat × Rule) :=
  t.runs.toList.flatMap fun r => (List.range' r.start r.length).map fun c => (c, r.rule)

end Table

end LexicalRuns
