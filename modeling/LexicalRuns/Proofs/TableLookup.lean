import LexicalRuns.Proofs.RunOrder

/-! Looking up a code point. Halving finds how many runs start at or before it; as the runs are in
order, none but the last of these can contain it. So the search gives what a scan of all runs
gives, `ruleAt`, which is what the rest of the theory speaks about. -/
namespace LexicalRuns

namespace Table

theorem ofRuns_eq_ok_iff (runs : List Run) (t : Table) :
    ofRuns runs = .ok t ↔ t.runs.toList = runs := by
  unfold ofRuns
  split
  next fault failed =>
    refine ⟨nofun, ?_⟩
    rintro rfl
    have passed := (checkOrderFrom_eq_ok_iff 1 t.runs.toList).mpr t.ordered
    simp [checkOrder, passed] at failed
  next passed =>
    constructor
    · intro made
      cases made
      rfl
    · intro same
      subst same
      rfl

theorem ofRuns_eq_error {runs : List Run} {fault : Fault}
    (refused : checkOrderFrom 1 runs = .error fault) : ofRuns runs = .error fault := by
  unfold ofRuns
  split
  next other stopped =>
    rw [checkOrder, refused] at stopped
    cases stopped
    rfl
  next passed =>
    rw [checkOrder, refused] at passed
    cases passed

/-- The runs before `low` start at or before `c`, those from `high` on start after it. -/
structure Bracket (runs : Array Run) (c low high : Nat) : Prop where
  within : low ≤ high ∧ high ≤ runs.size
  before : ∀ i (bound : i < runs.size), i < low → runs[i].start ≤ c
  after : ∀ i (bound : i < runs.size), high ≤ i → c < runs[i].start

theorem start_le_start {runs : Array Run} (ordered : Ordered runs.toList) {i j : Nat}
    (bound : j < runs.size) (le : i ≤ j) : runs[i].start ≤ runs[j].start := by
  rcases Nat.eq_or_lt_of_le le with rfl | lt
  · exact Nat.le_refl _
  · have apart := List.pairwise_iff_getElem.mp ordered i j (by simp; omega) (by simpa) lt
    simp only [Array.getElem_toList] at apart
    exact Nat.le_trans (Nat.le_of_lt runs[i].start_lt_stop) apart

/-- The search keeps its bracket and ends when that is closed. -/
theorem search_bracket {runs : Array Run} (ordered : Ordered runs.toList) (c low high : Nat)
    (bound : high ≤ runs.size) (bracket : Bracket runs c low high) :
    Bracket runs c (search runs c low high bound) (search runs c low high bound) := by
  fun_induction search runs c low high bound with
  | case1 low high bound active middle inside early ih =>
    apply ih
    refine ⟨by omega, fun i inBounds lt => ?_, bracket.after⟩
    have := start_le_start ordered inside (show i ≤ middle by omega)
    omega
  | case2 low high bound active middle inside late ih =>
    apply ih
    refine ⟨by omega, bracket.before, fun i inBounds le => ?_⟩
    have := start_le_start ordered inBounds (show middle ≤ i from le)
    omega
  | case3 low high bound closed =>
    have same : high = low := by have := bracket.within; omega
    subst same
    exact bracket

theorem Bracket.ruleAt_zero {runs : Array Run} {c : Nat} (bracket : Bracket runs c 0 0) :
    ruleAt runs.toList c = none := by
  rw [ruleAt_eq_none_iff]
  intro r member inside
  obtain ⟨i, bound, rfl⟩ := List.mem_iff_getElem.mp member
  simp only [Array.length_toList, Array.getElem_toList] at bound inside
  have := bracket.after i bound (Nat.zero_le _)
  omega

/-- A run before the last candidate ends too early, one after it starts too late. -/
theorem Bracket.ruleAt_succ {runs : Array Run} (ordered : Ordered runs.toList) {c index : Nat}
    (bracket : Bracket runs c (index + 1) (index + 1)) (bound : index < runs.size) :
    ruleAt runs.toList c = if runs[index].contains c then some runs[index].rule else none := by
  have early := bracket.before index bound (Nat.lt_succ_self _)
  split
  next inside =>
    have stop := ((Run.contains_iff _ c).mp inside).2
    exact ordered.ruleAt_of_mem (by simp) early stop
  next outside =>
    rw [ruleAt_eq_none_iff]
    intro r member inside
    obtain ⟨i, inBounds, rfl⟩ := List.mem_iff_getElem.mp member
    simp only [Array.length_toList, Array.getElem_toList] at inBounds inside
    rcases Nat.lt_trichotomy i index with before | rfl | after
    · have apart := List.pairwise_iff_getElem.mp ordered i index (by simpa) (by simpa) before
      simp only [Array.getElem_toList] at apart
      omega
    · exact outside ((Run.contains_iff _ c).mpr inside)
    · have := bracket.after i inBounds after
      omega

theorem lookup_eq_ruleAt (t : Table) (c : Nat) : t.lookup c = ruleAt t.runs.toList c := by
  have bracket := search_bracket t.ordered c 0 t.runs.size (Nat.le_refl _)
    ⟨⟨Nat.zero_le _, Nat.le_refl _⟩, fun _ _ lt => absurd lt (Nat.not_lt_zero _),
      fun _ bound le => absurd bound (Nat.not_lt.mpr le)⟩
  unfold lookup
  split
  next empty =>
    rw [empty] at bracket
    exact bracket.ruleAt_zero.symm
  next index found =>
    rw [found] at bracket
    have bound : index < t.runs.size := bracket.within.2
    simp only [Array.getElem?_eq_getElem bound]
    exact (bracket.ruleAt_succ t.ordered bound).symm

theorem exists_ofRuns {runs : List Run} (ordered : Ordered runs) :
    ∃ t : Table, ofRuns runs = .ok t ∧ t.lookup = ruleAt runs :=
  ⟨⟨runs.toArray, ordered⟩, (ofRuns_eq_ok_iff runs _).mpr rfl, funext (lookup_eq_ruleAt _)⟩

theorem lookup_eq_some_iff (t : Table) (c : Nat) (rule : Rule) :
    t.lookup c = some rule ↔ ∃ r ∈ t.runs.toList, r.contains c = true ∧ r.rule = rule := by
  rw [lookup_eq_ruleAt, t.ordered.ruleAt_eq_some_iff]
  simp only [Run.contains_iff, and_assoc]

theorem isIdentifierPart_iff (t : Table) (c : Nat) :
    t.isIdentifierPart c = true ↔
      ∃ rule, t.lookup c = some rule ∧ rule.bits &&& Rule.identifierMask ≠ 0 := by
  unfold isIdentifierPart
  cases t.lookup c with
  | none => simp
  | some rule => simp [Rule.isIdentifier]

/-- The table of a list of runs answers as a scan of the list does, in which at most one run
contains the code point. -/
theorem lookup_scans {runs : List Run} {t : Table} (made : ofRuns runs = .ok t) (c : Nat) :
    t.lookup c = ruleAt runs c ∧
      (∀ rule, t.lookup c = some rule ↔ ∃ r ∈ runs, r.contains c = true ∧ r.rule = rule) ∧
      (runs.filter (·.contains c)).length ≤ 1 ∧
      (t.isWhitespace c = true ↔ ∃ r ∈ runs, r.contains c = true ∧ r.rule = .whitespace) ∧
      (t.isIdentifierStart c = true ↔
        ∃ r ∈ runs, r.contains c = true ∧ r.rule = .identifierStart) ∧
      (t.isIdentifierPart c = true ↔
        ∃ r ∈ runs, r.contains c = true ∧ r.rule.bits &&& Rule.identifierMask ≠ 0) := by
  obtain rfl := (ofRuns_eq_ok_iff runs t).mp made
  refine ⟨t.lookup_eq_ruleAt c, t.lookup_eq_some_iff c, t.ordered.length_filter_contains_le c,
    ?whitespace, ?start, ?part⟩
  case whitespace =>
    rw [isWhitespace, decide_eq_true_iff]
    exact t.lookup_eq_some_iff c .whitespace
  case start =>
    rw [isIdentifierStart, decide_eq_true_iff]
    exact t.lookup_eq_some_iff c .identifierStart
  case part =>
    simp only [isIdentifierPart_iff, lookup_eq_some_iff]
    constructor
    · rintro ⟨_, ⟨r, member, inside, rfl⟩, masked⟩
      exact ⟨r, member, inside, masked⟩
    · rintro ⟨r, member, inside, masked⟩
      exact ⟨r.rule, ⟨r, member, inside, rfl⟩, masked⟩

/-- The space, the digits, and five code points of another rule right after them. -/
def touching : List Run := [
  ⟨0x20, 1, .whitespace, by decide, by decide, by decide⟩,
  ⟨0x30, 10, .identifierPart, by decide, by decide, by decide⟩,
  ⟨0x3A, 5, .identifierStart, by decide, by decide, by decide⟩]

/-- Where two runs touch, the later one has the code point. -/
theorem lookup_scans_touching :
    ∃ t, ofRuns touching = .ok t ∧ t.lookup 0x3A = some .identifierStart ∧
      t.isIdentifierStart 0x39 = false ∧ t.isIdentifierPart 0x39 = true := by
  have ordered : Ordered touching := by decide
  obtain ⟨t, made, _⟩ := exists_ofRuns ordered
  obtain ⟨scanned, _⟩ := lookup_scans made 0x3A
  obtain ⟨_, _, _, _, start, part⟩ := lookup_scans made 0x39
  refine ⟨t, made, scanned, Bool.eq_false_iff.mpr (mt start.mp ?_), part.mpr ?_⟩
  · decide
  · decide

end Table

end LexicalRuns
