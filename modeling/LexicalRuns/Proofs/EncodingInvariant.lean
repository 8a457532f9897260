import LexicalRuns.Encoding
import LexicalRuns.Proofs.CanonicalRuns

/-! The invariant of encoding. Before each code point either no stretch is open and the code point
before had no rule, or the open stretch ends there; the runs written so far are the canonical ones
up to where the stretch starts. The pass keeps this, so closing never fails and what is left at the
end are the canonical runs of the whole code point space. -/
namespace LexicalRuns.Encoding

/-- What holds when all code points before `c` have been passed. -/
inductive Reached (classify : Nat → Option Rule) (c : Nat) : Progress → Prop where
  | idle (runs : Array Run) (encodes : Encodes classify c runs.toList)
      (empty : ∀ d, d + 1 = c → classify d = none) : Reached classify c ⟨runs, none⟩
  | inside (runs : Array Run) (s : Stretch) (encodes : Encodes classify s.start runs.toList)
      (positive : 0 < s.length) (fits : s.length ≤ Run.maxLength) (stop : s.start + s.length = c)
      (same : ∀ d, s.start ≤ d → d < c → classify d = some s.rule)
      (parted : ∀ a ∈ runs.toList, a.stop = s.start → a.rule = s.rule → a.length = Run.maxLength) :
      Reached classify c ⟨runs, some s⟩

variable {classify : Nat → Option Rule} {c : Nat} {p : Progress}

theorem reached_start (classify : Nat → Option Rule) : Reached classify 0 .start :=
  .idle #[] (Encodes.nil classify) nofun

namespace Reached

/-- Between stretches no run ends at `c`, as it would contain the code point before. -/
theorem stop_ne_of_empty {runs : List Run} (encodes : Encodes classify c runs)
    (empty : ∀ d, d + 1 = c → classify d = none) {a : Run} (member : a ∈ runs) : a.stop ≠ c := by
  intro stop
  have reach := a.start_lt_stop
  have covered := encodes.ordered.ruleAt_of_mem member (c := c - 1) (by omega) (by omega)
  rw [encodes.covers (c - 1) (by omega), empty (c - 1) (by omega)] at covered
  cases covered

/-- Closing succeeds. A run that ends at `c` either is full or has a rule that extends it. -/
theorem close (reached : Reached classify c p) (bound : c ≤ CodePoint.count) :
    ∃ runs, p.close = .ok runs ∧ Encodes classify c runs.toList ∧
      ∀ a ∈ runs.toList, a.stop = c → p.extend? (some a.rule) = none →
        a.length = Run.maxLength := by
  cases reached with
  | idle runs encodes empty =>
    exact ⟨runs, rfl, encodes, fun a member stop => absurd stop (stop_ne_of_empty encodes empty member)⟩
  | inside runs s encodes positive fits stop same parted =>
    let run : Run := ⟨s.start, s.length, s.rule, positive, fits, by omega⟩
    have checked : RawRun.check ⟨s.start, s.length, s.rule⟩ = .ok run :=
      RawRun.check_eq_ok_iff.mpr rfl
    have ends : run.stop = c := stop
    refine ⟨runs.push run, by simp [Progress.close, positive, checked], ?_, ?_⟩
    · rw [Array.toList_push, ← ends]
      exact encodes.append rfl (fun d low high => same d low (ends ▸ high)) parted
    · intro a member stops refused
      rw [Array.toList_push] at member
      rcases List.mem_append.mp member with earlier | last
      · have := encodes.within a earlier
        omega
      · obtain rfl := List.mem_singleton.mp last
        have full : ¬s.length < Run.maxLength := by simpa [Progress.extend?, run] using refused
        exact Nat.le_antisymm fits (Nat.le_of_not_lt full)

theorem extend (reached : Reached classify c p) {s : Stretch}
    (extended : p.extend? (classify c) = some s) : Reached classify (c + 1) ⟨p.runs, some s⟩ := by
  cases reached with
  | idle => simp [Progress.extend?] at extended
  | inside runs t encodes positive fits stop same parted =>
    simp only [Progress.extend?, Option.ite_none_right_eq_some, Option.some.injEq] at extended
    obtain ⟨⟨rule, room⟩, rfl⟩ := extended
    refine .inside runs _ encodes (Nat.succ_pos _) room (by simp only; omega) ?_ parted
    intro d low high
    rcases Nat.lt_succ_iff_lt_or_eq.mp high with before | rfl
    · exact same d low before
    · exact rule.symm

theorem opening {runs : Array Run} (encodes : Encodes classify c runs.toList)
    (parted : ∀ a ∈ runs.toList, a.stop = c → classify c = some a.rule →
      a.length = Run.maxLength) :
    Reached classify (c + 1) ⟨runs, Progress.opening c (classify c)⟩ := by
  cases atC : classify c with
  | none =>
    refine .idle runs (encodes.gap atC) fun d next => ?_
    rw [Nat.succ.inj next, atC]
  | some rule =>
    refine .inside runs ⟨rule, c, 1⟩ encodes Nat.one_pos (show 1 ≤ Run.maxLength by decide) rfl
      ?_ ?_
    · intro d low high
      rw [show d = c by simp only at low; omega, atC]
    · intro a member stop same
      exact parted a member stop (same ▸ atC)

end Reached

theorem advance_reached (reached : Reached classify c p) (bound : c < CodePoint.count) :
    ∃ q, p.advance c (classify c) = .ok q ∧ Reached classify (c + 1) q := by
  cases extended : p.extend? (classify c) with
  | some s => exact ⟨⟨p.runs, some s⟩, by simp [Progress.advance, extended], reached.extend extended⟩
  | none =>
    obtain ⟨runs, closed, encodes, parted⟩ := reached.close (Nat.le_of_lt bound)
    refine ⟨⟨runs, Progress.opening c (classify c)⟩, by simp [Progress.advance, extended, closed], ?_⟩
    refine Reached.opening encodes fun a member stop rule => ?_
    exact parted a member stop (rule ▸ extended)

/-- Passing any number of code points, by induction on how many there are. -/
theorem scan_reached (count : Nat) (reached : Reached classify c p)
    (bound : c + count ≤ CodePoint.count) :
    ∃ q, Progress.scan classify count c p = .ok q ∧ Reached classify (c + count) q := by
  induction count generalizing c p with
  | zero => exact ⟨p, rfl, reached⟩
  | succ count ih =>
    obtain ⟨next, advanced, reached⟩ := advance_reached reached (by omega)
    obtain ⟨q, scanned, reached⟩ := ih reached (by omega)
    refine ⟨q, by simp [Progress.scan, advanced, scanned], ?_⟩
    rwa [show c + (count + 1) = c + 1 + count by omega]

theorem exists_encode (classify : Nat → Option Rule) :
    ∃ runs, encode classify = .ok (.ofRuns runs) ∧ Encodes classify CodePoint.count runs := by
  have enough : 0 + CodePoint.count ≤ CodePoint.count := Nat.le_of_eq (Nat.zero_add _)
  obtain ⟨q, scanned, reached⟩ := scan_reached CodePoint.count (reached_start classify) enough
  rw [Nat.zero_add] at reached
  obtain ⟨runs, closed, encodes, _⟩ := reached.close (Nat.le_refl _)
  exact ⟨runs.toList, by simp only [encode, scanned, closed], encodes⟩

theorem encode_eq_ok_iff (classify : Nat → Option Rule) (summary : Summary) :
    encode classify = .ok summary ↔
      Encodes classify CodePoint.count summary.runs ∧ summary = .ofRuns summary.runs := by
  obtain ⟨runs, encoded, encodes⟩ := exists_encode classify
  rw [encoded]
  constructor
  · intro same
    cases same
    exact ⟨encodes, rfl⟩
  · intro h
    obtain ⟨others, whole⟩ := h
    rw [encodes.unique others, ← whole]

end LexicalRuns.Encoding
