import LexicalRuns.Proofs.EncodingInvariant
import Mathlib.Data.Nat.Find

/-! The longest run. A stretch is any number of code points one after the other with one rule. Every
run is a stretch, and a run that starts where a longest stretch does either takes all of it or is
full. So the longest run is as long as the longest stretch, or as a run can be. -/
namespace LexicalRuns.Encoding

structure Uniform (classify : Nat → Option Rule) (rule : Rule) (start length : Nat) : Prop where
  inside : start + length ≤ CodePoint.count
  same : ∀ c, start ≤ c → c < start + length → classify c = some rule

/-- The length of a stretch that no other exceeds; without any rule all stretches are empty. -/
structure LongestStretch (classify : Nat → Option Rule) (n : Nat) : Prop where
  attained : ∃ rule start, Uniform classify rule start n
  bounds : ∀ rule start m, Uniform classify rule start m → m ≤ n

section Stretches

variable {classify : Nat → Option Rule} {n : Nat}

/-- No stretch leaves the code point space, so that one of them is the longest. -/
theorem exists_longestStretch (classify : Nat → Option Rule) :
    ∃ n, LongestStretch classify n := by
  classical
  let attains (n : Nat) : Prop := ∃ rule start, Uniform classify rule start n
  have empty : attains 0 :=
    ⟨.whitespace, 0, Nat.zero_le _, fun c low high => absurd high (Nat.not_lt.mpr low)⟩
  refine ⟨Nat.findGreatest attains CodePoint.count,
    Nat.findGreatest_spec (Nat.zero_le CodePoint.count) empty, fun rule start m uniform => ?_⟩
  have bound : m ≤ CodePoint.count := Nat.le_trans (Nat.le_add_left m start) uniform.inside
  exact Nat.le_findGreatest bound ⟨rule, start, uniform⟩

/-- A single code point with a rule is a stretch. -/
theorem LongestStretch.eq_zero_iff (longest : LongestStretch classify n) :
    n = 0 ↔ ∀ c ≤ CodePoint.last, classify c = none := by
  constructor
  · rintro rfl c inside
    cases atC : classify c with
    | none => rfl
    | some rule =>
      have single : Uniform classify rule c 1 := by
        refine ⟨Nat.succ_le_succ inside, fun d low high => ?_⟩
        rw [show d = c by omega, atC]
      exact absurd (longest.bounds rule c 1 single) (Nat.not_succ_le_zero 0)
  · intro none
    obtain ⟨rule, start, uniform⟩ := longest.attained
    apply Nat.eq_zero_of_not_pos
    intro positive
    have within : start < start + n := Nat.lt_add_of_pos_right positive
    have covered := uniform.same start (Nat.le_refl _) within
    rw [none start (Nat.le_of_lt_succ (Nat.lt_of_lt_of_le within uniform.inside))] at covered
    cases covered

end Stretches

theorem foldl_max_length_le_iff (runs : List Run) (start n : Nat) :
    runs.foldl (fun longest r => max longest r.length) start ≤ n ↔
      start ≤ n ∧ ∀ r ∈ runs, r.length ≤ n := by
  induction runs generalizing start with
  | nil => simp
  | cons r rest ih =>
    rw [List.foldl_cons, ih, List.forall_mem_cons, Nat.max_le, and_assoc]

/-- The length of the longest run is the least bound of all. -/
theorem Summary.longest_ofRuns_le_iff (runs : List Run) (n : Nat) :
    (Summary.ofRuns runs).longest ≤ n ↔ ∀ r ∈ runs, r.length ≤ n := by
  rw [Summary.ofRuns, foldl_max_length_le_iff, and_iff_right (Nat.zero_le n)]

section Runs

variable {classify : Nat → Option Rule} {runs : List Run} {n : Nat}

theorem uniform_of_mem (encodes : Encodes classify CodePoint.count runs) {r : Run}
    (member : r ∈ runs) : Uniform classify r.rule r.start r.length := by
  refine ⟨r.inside, fun c low high => ?_⟩
  have below : c < CodePoint.count := Nat.lt_of_lt_of_le high r.inside
  rw [← encodes.covers c below]
  exact encodes.ordered.ruleAt_of_mem member low high

/-- Otherwise the run would make the stretch longer. -/
theorem exists_start_eq (encodes : Encodes classify CodePoint.count runs) {rule : Rule}
    {start : Nat} (uniform : Uniform classify rule start n)
    (longest : LongestStretch classify n) (positive : 0 < n) :
    ∃ r ∈ runs, r.start = start ∧ r.rule = rule := by
  have bound := uniform.inside
  have atStart : ruleAt runs start = some rule := by
    rw [encodes.covers start (by omega)]
    exact uniform.same start (Nat.le_refl _) (by omega)
  obtain ⟨r, member, low, high, rfl⟩ := (encodes.ordered.ruleAt_eq_some_iff _ _).mp atStart
  refine ⟨r, member, ?_, rfl⟩
  have longer : Uniform classify r.rule r.start (start - r.start + n) := by
    refine ⟨by omega, fun c first last => ?_⟩
    by_cases before : c < start
    · exact (uniform_of_mem encodes member).same c first (Nat.lt_trans before high)
    · exact uniform.same c (by omega) (by omega)
  have := longest.bounds _ _ _ longer
  omega

/-- A run that starts with a longest stretch and is shorter is full, as the stretch goes on. -/
theorem exists_min_le_length (encodes : Encodes classify CodePoint.count runs)
    (longest : LongestStretch classify n) (positive : 0 < n) :
    ∃ r ∈ runs, min Run.maxLength n ≤ r.length := by
  obtain ⟨rule, start, uniform⟩ := longest.attained
  obtain ⟨r, member, rfl, rfl⟩ := exists_start_eq encodes uniform longest positive
  refine ⟨r, member, ?_⟩
  by_cases shorter : r.length < n
  · have bound := uniform.inside
    have goesOn : ruleAt runs r.stop = some r.rule := by
      have behind : r.stop < r.start + n := Nat.add_lt_add_left shorter r.start
      rw [encodes.covers r.stop (by omega)]
      exact uniform.same r.stop (Nat.le_of_lt r.start_lt_stop) behind
    have full := encodes.canonical.length_eq encodes.ordered member goesOn
    exact full ▸ Nat.min_le_left ..
  · exact Nat.le_trans (Nat.min_le_right ..) (Nat.le_of_not_lt shorter)

end Runs

/-- The longest run has the length of the longest stretch, or that of a full run if that is less;
there is none exactly if no code point has a rule. -/
theorem encode_longest (classify : Nat → Option Rule) :
    ∃ summary n, encode classify = .ok summary ∧ LongestStretch classify n ∧
      summary.longest = min Run.maxLength n ∧
      (summary.longest = 0 ↔ ∀ c ≤ CodePoint.last, classify c = none) := by
  obtain ⟨runs, encoded, encodes⟩ := exists_encode classify
  obtain ⟨n, longest⟩ := exists_longestStretch classify
  have upper : (Summary.ofRuns runs).longest ≤ min Run.maxLength n := by
    rw [Summary.longest_ofRuns_le_iff]
    intro r member
    exact Nat.le_min.mpr ⟨r.fits, longest.bounds _ _ _ (uniform_of_mem encodes member)⟩
  have lower : min Run.maxLength n ≤ (Summary.ofRuns runs).longest := by
    rcases Nat.eq_zero_or_pos n with rfl | positive
    · exact Nat.le_trans (Nat.min_le_right ..) (Nat.zero_le _)
    · obtain ⟨r, member, reaches⟩ := exists_min_le_length encodes longest positive
      exact Nat.le_trans reaches
        ((Summary.longest_ofRuns_le_iff runs _).mp (Nat.le_refl _) r member)
  have equal := Nat.le_antisymm upper lower
  refine ⟨.ofRuns runs, n, encoded, longest, equal, ?_⟩
  rw [equal, ← longest.eq_zero_iff]
  have positive : 0 < Run.maxLength := by decide
  omega

end LexicalRuns.Encoding
