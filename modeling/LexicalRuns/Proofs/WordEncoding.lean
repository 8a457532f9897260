import LexicalRuns.Proofs.EncodingInvariant
import LexicalRuns.Proofs.WordArithmetic

/-! Encoding in 32-bit words. The pass over the code point space is done once more with words for
numbers, and the invariant of encoding keeps every sum small: a stretch only grows while it is
shorter than a full run, and no code point is greater than the last. So nothing traps, no run is
refused, and the runs have the same fields. -/
namespace LexicalRuns

namespace Word

structure Progress where
  runs : Array Fields
  current : Option Fields

namespace Progress

def start : Progress := ⟨#[], none⟩

def opening (c : UInt32) : Option Rule → Option Fields
  | none => none
  | some rule => some ⟨c, 1, rule⟩

def close (w : Progress) : Except Trap (Array Fields) :=
  match w.current with
  | none => .ok w.runs
  | some s =>
    if 0 < s.length.toNat then do
      s.checkBounds
      return w.runs.push s
    else .ok w.runs

def extend? (w : Progress) (rule : Option Rule) : Except Trap (Option Fields) :=
  match w.current with
  | none => .ok none
  | some s =>
    if some s.rule = rule ∧ s.length.toNat < Run.maxLength then do
      let length ← add s.length 1
      return some { s with length }
    else .ok none

def advance (w : Progress) (c : UInt32) (rule : Option Rule) : Except Trap Progress := do
  match ← w.extend? rule with
  | some s => return ⟨w.runs, some s⟩
  | none =>
    let runs ← w.close
    return ⟨runs, opening c rule⟩

def scan (classify : Nat → Option Rule) : (count : Nat) → (c : UInt32) → Progress →
    Except Trap Progress
  | 0, _, w => .ok w
  | count + 1, c, w => do
    let w ← w.advance c (classify c.toNat)
    let next ← add c 1
    scan classify count next w

end Progress

def encode (classify : Nat → Option Rule) : Except Trap (List Fields) := do
  let w ← Progress.scan classify CodePoint.count 0 .start
  let runs ← w.close
  return runs.toList

def Fields.stretch (f : Fields) : Encoding.Stretch := ⟨f.rule, f.start.toNat, f.length.toNat⟩

/-- The words have the values of the numbers. -/
structure Shows (w : Progress) (p : Encoding.Progress) : Prop where
  runs : w.runs.toList.map Fields.raw = p.runs.toList.map Run.raw
  current : w.current.map Fields.stretch = p.current

namespace Shows

variable {w : Progress} {p q : Encoding.Progress} {c : UInt32} {rule : Option Rule}

theorem start : Shows .start .start := ⟨rfl, rfl⟩

theorem opening (c : UInt32) (rule : Option Rule) :
    (Progress.opening c rule).map Fields.stretch = Encoding.Progress.opening c.toNat rule := by
  cases rule <;> rfl

/-- A stretch is asked to have room before its length is added to. -/
theorem extend (shows : Shows w p) (rule : Option Rule) :
    ∃ grown, w.extend? rule = .ok grown ∧ grown.map Fields.stretch = p.extend? rule := by
  unfold Progress.extend? Encoding.Progress.extend?
  rw [← shows.current]
  cases w.current with
  | none => exact ⟨none, rfl, rfl⟩
  | some s =>
    by_cases grows : some s.rule = rule ∧ s.length.toNat < Run.maxLength
    · obtain ⟨sum, value⟩ := add_one_eq_ok grows.2 (by decide)
      refine ⟨some { s with length := s.length + 1 }, ?_, ?_⟩
      · simp only [if_pos grows, sum, ok_bind]
        rfl
      · simp only [Option.map_some, Fields.stretch, value, if_pos grows]
    · refine ⟨none, if_neg grows, ?_⟩
      simp only [Option.map_some, Option.map_none, Fields.stretch, if_neg grows]

theorem close (shows : Shows w p) {runs : Array Run} (closed : p.close = .ok runs) :
    ∃ fields, w.close = .ok fields ∧
      fields.toList.map Fields.raw = runs.toList.map Run.raw := by
  unfold Encoding.Progress.close at closed
  rw [← shows.current] at closed
  unfold Progress.close
  cases atEnd : w.current with
  | none =>
    rw [atEnd] at closed
    cases closed
    exact ⟨w.runs, rfl, shows.runs⟩
  | some s =>
    rw [atEnd] at closed
    simp only [Option.map_some, Fields.stretch] at closed
    by_cases positive : 0 < s.length.toNat
    · simp only [if_pos positive] at closed ⊢
      split at closed
      · cases closed
      next run checked =>
        cases closed
        have same : run.raw = s.raw := RawRun.check_eq_ok_iff.mp checked
        have passed := s.checkBounds_eq_ok_iff.mpr ⟨run, same⟩
        refine ⟨w.runs.push s, ?_, ?_⟩
        · rw [passed]
          rfl
        · simp [shows.runs, same]
    · simp only [if_neg positive] at closed ⊢
      cases closed
      exact ⟨w.runs, rfl, shows.runs⟩

theorem advance (shows : Shows w p) {c : UInt32} {rule : Option Rule}
    (advanced : p.advance c.toNat rule = .ok q) :
    ∃ v, w.advance c rule = .ok v ∧ Shows v q := by
  obtain ⟨grown, extended, same⟩ := shows.extend rule
  unfold Encoding.Progress.advance at advanced
  rw [← same] at advanced
  unfold Progress.advance
  rw [extended, ok_bind]
  cases grown with
  | some s =>
    cases advanced
    exact ⟨⟨w.runs, some s⟩, rfl, shows.runs, rfl⟩
  | none =>
    simp only [Option.map_none] at advanced
    split at advanced
    · cases advanced
    next runs closed =>
      cases advanced
      obtain ⟨fields, closed, same⟩ := shows.close closed
      refine ⟨⟨fields, Progress.opening c rule⟩, ?_, same, opening c rule⟩
      simp only [closed, ok_bind]
      rfl

/-- Counting code points stays within words, as there are no more of them than that. -/
theorem scan {classify : Nat → Option Rule} {count : Nat} (shows : Shows w p) {c : UInt32}
    (bound : c.toNat + count ≤ CodePoint.count)
    (scanned : Encoding.Progress.scan classify count c.toNat p = .ok q) :
    ∃ v, Progress.scan classify count c w = .ok v ∧ Shows v q := by
  induction count generalizing w p c with
  | zero =>
    cases scanned
    exact ⟨w, rfl, shows⟩
  | succ count ih =>
    simp only [Encoding.Progress.scan] at scanned
    split at scanned
    · cases scanned
    next next advanced =>
      have inside : c.toNat < CodePoint.count := by omega
      obtain ⟨sum, value⟩ := add_one_eq_ok inside (by decide)
      obtain ⟨v, advanced, shows⟩ := shows.advance advanced
      obtain ⟨last, scanned, shows⟩ := ih shows (c := c + 1) (by omega) (value ▸ scanned)
      exact ⟨last, by rw [Progress.scan, advanced, ok_bind, sum, ok_bind, scanned], shows⟩

end Shows

theorem exists_encode (classify : Nat → Option Rule) :
    ∃ summary fields, Encoding.encode classify = .ok summary ∧ encode classify = .ok fields ∧
      fields.map Fields.raw = summary.runs.map Run.raw := by
  have all : 0 + CodePoint.count ≤ CodePoint.count := Nat.le_of_eq (Nat.zero_add _)
  obtain ⟨p, scanned, reached⟩ :=
    Encoding.scan_reached CodePoint.count (Encoding.reached_start classify) all
  rw [Nat.zero_add] at reached
  obtain ⟨runs, closed, _⟩ := reached.close (Nat.le_refl _)
  obtain ⟨w, passed, shows⟩ := Shows.start.scan (c := 0) all scanned
  obtain ⟨fields, ended, same⟩ := shows.close closed
  refine ⟨.ofRuns runs.toList, fields.toList, ?_, ?_, same⟩
  · simp only [Encoding.encode, scanned, closed]
  · rw [encode, passed, ok_bind, ended, ok_bind]
    rfl

end Word

namespace Encoding

/-- Where encoding is when the code point `c` has been passed. -/
inductive Passed (classify : Nat → Option Rule) (c : Nat) : Progress → Prop where
  | idle (runs : Array Run) (empty : classify c = none) (written : ∀ a ∈ runs.toList, a.stop ≤ c) :
      Passed classify c ⟨runs, none⟩
  | inside (runs : Array Run) (s : Stretch) (positive : 1 ≤ s.length) (fits : s.length ≤ 511)
      (stop : s.start + s.length = c + 1)
      (same : ∀ d, s.start ≤ d → d ≤ c → classify d = some s.rule)
      (written : ∀ a ∈ runs.toList, a.stop ≤ s.start) : Passed classify c ⟨runs, some s⟩

theorem Reached.passed {classify : Nat → Option Rule} {c : Nat} {p : Progress}
    (reached : Reached classify (c + 1) p) : Passed classify c p := by
  cases reached with
  | idle runs encodes empty =>
    refine .idle runs (empty c rfl) fun a member => ?_
    have within := encodes.within a member
    have apart := stop_ne_of_empty encodes empty member
    omega
  | inside runs s encodes positive fits stop same _ =>
    exact .inside runs s positive fits stop
      (fun d low high => same d low (Nat.lt_succ_of_le high)) encodes.within

/-- After every code point there is no open stretch and that code point has no rule, or there is one
that ends with it, has one rule, can be closed as a run and starts where the runs before have ended.
So the pass in words meets no overflow and no fault and gives the same runs; and neither does the
check of any two words, nor the end and the packed form of a run that it accepts. -/
theorem encode_within_words (classify : Nat → Option Rule) :
    (∀ c ≤ CodePoint.last, ∃ p, Progress.scan classify (c + 1) 0 .start = .ok p ∧
      Passed classify c p ∧ ∃ runs, p.close = .ok runs) ∧
    (∃ summary fields, encode classify = .ok summary ∧ Word.encode classify = .ok fields ∧
      fields.map Word.Fields.raw = summary.runs.map Run.raw) ∧
    ∀ f : Word.Fields,
      f.checkBounds = Word.lift (Run.checkBounds f.start.toNat f.length.toNat) ∧
      (f.checkBounds = .ok () → ∃ r : Run, r.raw = f.raw ∧
        (∃ stop, f.stop = .ok stop ∧ stop.toNat = r.stop) ∧ f.pack = .ok r.pack) := by
  refine ⟨fun c inside => ?_, Word.exists_encode classify, fun f => ⟨f.checkBounds_eq, ?_⟩⟩
  · have bound : c + 1 ≤ CodePoint.count := Nat.succ_le_succ inside
    have all : 0 + (c + 1) ≤ CodePoint.count := by rwa [Nat.zero_add]
    obtain ⟨p, scanned, reached⟩ := scan_reached (c + 1) (reached_start classify) all
    rw [Nat.zero_add] at reached
    obtain ⟨runs, closed, _⟩ := reached.close bound
    exact ⟨p, scanned, reached.passed, runs, closed⟩
  · intro accepted
    obtain ⟨r, same⟩ := f.checkBounds_eq_ok_iff.mp accepted
    exact ⟨r, same, Word.Fields.exists_stop same, Word.Fields.pack_eq same⟩

/-- In six hundred code points with one rule the first run is full at `U+11FE`; and a run of the last
code point stops right behind the code point space. -/
theorem encode_within_words_at_limits :
    (∃ p, Progress.scan (fun c => if 0x1000 ≤ c ∧ c < 0x1258 then some .identifierPart else none)
        (0x11FE + 1) 0 .start = .ok p ∧ ∃ runs, p.close = .ok runs) ∧
    ∃ r : Run, r.raw = ⟨0x10FFFF, 1, .identifierPart⟩ ∧
      (Word.Fields.mk 0x10FFFF 1 .identifierPart).stop = .ok 0x110000 ∧
      (Word.Fields.mk 0x10FFFF 1 .identifierPart).pack = .ok r.pack ∧ r.pack = 0xC030FFFF := by
  obtain ⟨steps, _, words⟩ := encode_within_words
    fun c => if 0x1000 ≤ c ∧ c < 0x1258 then some .identifierPart else none
  obtain ⟨p, scanned, _, closed⟩ := steps 0x11FE (by decide)
  obtain ⟨_, accepted⟩ := words ⟨0x10FFFF, 1, .identifierPart⟩
  obtain ⟨r, same, _, packed⟩ := accepted rfl
  refine ⟨⟨p, scanned, closed⟩, r, same, rfl, packed, ?_⟩
  exact Except.ok.inj (packed.symm.trans rfl)

end Encoding

end LexicalRuns
