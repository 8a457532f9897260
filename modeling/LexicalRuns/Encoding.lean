import LexicalRuns.Run

/-! Encoding a classification as runs, in one pass over the code point space. A stretch grows while
the rule stays the same and the length fits a run; then it is written and the next one starts. -/
namespace LexicalRuns.Encoding

/-- Code points with one rule that have been passed and not yet been written. -/
structure Stretch where
  rule : Rule
  start : Nat
  length : Nat
  deriving DecidableEq, Repr

structure Progress where
  runs : Array Run
  current : Option Stretch

namespace Progress

def start : Progress := ⟨#[], none⟩

def opening (c : Nat) : Option Rule → Option Stretch
  | none => none
  | some rule => some ⟨rule, c, 1⟩

/-- Writes the current stretch, if there is anything in it. -/
def close (p : Progress) : Except Fault (Array Run) :=
  match p.current with
  | none => .ok p.runs
  | some s =>
    if 0 < s.length then
      match RawRun.check ⟨s.start, s.length, s.rule⟩ with
      | .error fault => .error fault
      | .ok run => .ok (p.runs.push run)
    else .ok p.runs

/-- The stretch with one more code point, if that has its rule and there is room. -/
def extend? (p : Progress) (rule : Option Rule) : Option Stretch :=
  match p.current with
  | none => none
  | some s =>
    if some s.rule = rule ∧ s.length < Run.maxLength then some { s with length := s.length + 1 }
    else none

def advance (p : Progress) (c : Nat) (rule : Option Rule) : Except Fault Progress :=
  match p.extend? rule with
  | some s => .ok ⟨p.runs, some s⟩
  | none =>
    match p.close with
    | .error fault => .error fault
    | .ok runs => .ok ⟨runs, opening c rule⟩

/-- Passes `count` code points from `c` on. -/
def scan (classify : Nat → Option Rule) : (count c : Nat) → Progress → Except Fault Progress
  | 0, _, p => .ok p
  | count + 1, c, p =>
    match p.advance c (classify c) with
    | .error fault => .error fault
    | .ok p => scan classify count (c + 1) p

end Progress

structure Summary where
  runs : List Run
  longest : Nat
  deriving DecidableEq, Repr

def Summary.ofRuns (runs : List Run) : Summary :=
  ⟨runs, runs.foldl (fun longest r => max longest r.length) 0⟩

def encode (classify : Nat → Option Rule) : Except Fault Summary :=
  match Progress.scan classify CodePoint.count 0 .start with
  | .error fault => .error fault
  | .ok p =>
    match p.close with
    | .error fault => .error fault
    | .ok runs => .ok (.ofRuns runs.toList)

end LexicalRuns.Encoding
