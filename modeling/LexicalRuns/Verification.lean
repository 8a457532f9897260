import LexicalRuns.Table

/-! Verification: runs stand for a classification if they are in order and the table made of them
gives every code point the rule of the classification. -/
namespace LexicalRuns

/-- The first of `count` code points from `c` on at which two classifications differ. -/
def firstDifference? (f g : Nat → Option Rule) : (count c : Nat) → Option Nat
  | 0, _ => none
  | count + 1, c => if f c = g c then firstDifference? f g count (c + 1) else some c

/-- Checks the fields of every run once more. -/
def checkRuns : List Run → Except Fault Unit
  | [] => .ok ()
  | r :: rest =>
    match Run.checkBounds r.start r.length with
    | .error fault => .error fault
    | .ok () => checkRuns rest

/-- No run fails a second time. -/
@[simp] theorem checkRuns_eq_ok (runs : List Run) : checkRuns runs = .ok () := by
  induction runs with
  | nil => rfl
  | cons r rest ih =>
    simp [checkRuns, Run.checkBounds_eq_ok_iff.mpr ⟨r.positive, r.fits, r.inside⟩, ih]

def verify (runs : List Run) (classify : Nat → Option Rule) : Except Fault Unit :=
  match checkRuns runs with
  | .error fault => .error fault
  | .ok () =>
    match Table.ofRuns runs with
    | .error fault => .error fault
    | .ok table =>
      match firstDifference? table.lookup classify CodePoint.count 0 with
      | none => .ok ()
      | some c => .error (.coverage c (classify c) (table.lookup c))

end LexicalRuns
