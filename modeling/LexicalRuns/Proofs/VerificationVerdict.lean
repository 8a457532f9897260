import LexicalRuns.Proofs.TableLookup
import LexicalRuns.Verification

/-! What a verification finds. Runs are refused at the first two neighbours that overlap, else at
the first code point whose rule is not that of the classification. Nothing else is refused, so the
accepted runs are those that are in order and cover each code point with its rule. -/
namespace LexicalRuns

theorem firstDifference?_eq_none_iff (f g : Nat → Option Rule) (count c : Nat) :
    firstDifference? f g count c = none ↔ ∀ d, c ≤ d → d < c + count → f d = g d := by
  induction count generalizing c with
  | zero => simp [firstDifference?]; omega
  | succ count ih =>
    simp only [firstDifference?]
    split
    next same =>
      rw [ih]
      constructor
      · intro later d low high
        rcases Nat.eq_or_lt_of_le low with rfl | low
        · exact same
        · exact later d low (by omega)
      · exact fun all d low high => all d (by omega) (by omega)
    next differ =>
      refine ⟨nofun, fun all => ?_⟩
      exact absurd (all c (Nat.le_refl c) (by omega)) differ

theorem firstDifference?_eq_some_iff (f g : Nat → Option Rule) (count c d : Nat) :
    firstDifference? f g count c = some d ↔
      c ≤ d ∧ d < c + count ∧ f d ≠ g d ∧ ∀ e, c ≤ e → e < d → f e = g e := by
  induction count generalizing c with
  | zero => simp [firstDifference?]; omega
  | succ count ih =>
    simp only [firstDifference?]
    split
    next same =>
      rw [ih]
      constructor
      · intro h
        obtain ⟨low, high, differ, before⟩ := h
        refine ⟨by omega, by omega, differ, fun e above below => ?_⟩
        rcases Nat.eq_or_lt_of_le above with rfl | above
        · exact same
        · exact before e above below
      · intro h
        obtain ⟨low, high, differ, before⟩ := h
        have other : d ≠ c := by
          intro equal
          exact differ (equal ▸ same)
        exact ⟨by omega, by omega, differ, fun e above below => before e (by omega) below⟩
    next differ =>
      constructor
      · intro found
        cases found
        exact ⟨Nat.le_refl d, by omega, differ, fun e low high => absurd low (by omega)⟩
      · intro h
        obtain ⟨low, _, _, before⟩ := h
        rcases Nat.eq_or_lt_of_le low with rfl | low
        · rfl
        · exact absurd (before c (Nat.le_refl c) low) differ

theorem firstDifference?_count_eq_none_iff (f g : Nat → Option Rule) :
    firstDifference? f g CodePoint.count 0 = none ↔ ∀ c ≤ CodePoint.last, f c = g c := by
  rw [firstDifference?_eq_none_iff, Nat.zero_add]
  constructor
  · intro all c inside
    exact all c (Nat.zero_le c) (Nat.lt_succ_of_le inside)
  · intro all c _ below
    exact all c (Nat.le_of_lt_succ below)

theorem firstDifference?_count_eq_some_iff (f g : Nat → Option Rule) (c : Nat) :
    firstDifference? f g CodePoint.count 0 = some c ↔
      c ≤ CodePoint.last ∧ f c ≠ g c ∧ ∀ d < c, f d = g d := by
  rw [firstDifference?_eq_some_iff, Nat.zero_add]
  constructor
  · intro h
    obtain ⟨_, below, differ, before⟩ := h
    exact ⟨Nat.le_of_lt_succ below, differ, fun d => before d (Nat.zero_le d)⟩
  · intro h
    obtain ⟨inside, differ, before⟩ := h
    exact ⟨Nat.zero_le c, Nat.lt_succ_of_le inside, differ, fun d _ => before d⟩

theorem verify_of_overlap {runs : List Run} (classify : Nat → Option Rule) {i : Nat} {a b : Run}
    (h : FirstOverlap runs i a b) :
    verify runs classify = .error (.unordered (i + 1) b.start a.stop) := by
  have refused : checkOrderFrom 1 runs = .error (.unordered (i + 1) b.start a.stop) :=
    (checkOrderFrom_eq_error_iff 1 runs _).mpr ⟨i, a, b, h, by congr 1; omega⟩
  have failed := Table.ofRuns_eq_error refused
  simp only [verify, checkRuns_eq_ok, failed]

theorem verify_of_difference {runs : List Run} (ordered : Ordered runs)
    (classify : Nat → Option Rule) {c : Nat} (inside : c ≤ CodePoint.last)
    (differ : ruleAt runs c ≠ classify c) (before : ∀ d < c, ruleAt runs d = classify d) :
    verify runs classify = .error (.coverage c (classify c) (ruleAt runs c)) := by
  obtain ⟨t, made, looked⟩ := Table.exists_ofRuns ordered
  have found := (firstDifference?_count_eq_some_iff _ _ c).mpr ⟨inside, differ, before⟩
  simp only [verify, checkRuns_eq_ok, made, looked, found]

theorem verify_of_agreement {runs : List Run} (ordered : Ordered runs)
    {classify : Nat → Option Rule} (same : ∀ c ≤ CodePoint.last, ruleAt runs c = classify c) :
    verify runs classify = .ok () := by
  obtain ⟨t, made, looked⟩ := Table.exists_ofRuns ordered
  have found := (firstDifference?_count_eq_none_iff _ _).mpr same
  simp only [verify, checkRuns_eq_ok, made, looked, found]

inductive Verdict (runs : List Run) (classify : Nat → Option Rule) : Except Fault Unit → Prop where
  | unordered (i : Nat) (a b : Run) (first : FirstOverlap runs i a b) :
      Verdict runs classify (.error (.unordered (i + 1) b.start a.stop))
  | coverage (c : Nat) (free : ∀ i a b, ¬Overlap runs i a b) (inside : c ≤ CodePoint.last)
      (differ : ruleAt runs c ≠ classify c) (before : ∀ d < c, ruleAt runs d = classify d) :
      Verdict runs classify (.error (.coverage c (classify c) (ruleAt runs c)))
  | accepted (free : ∀ i a b, ¬Overlap runs i a b)
      (same : ∀ c ≤ CodePoint.last, ruleAt runs c = classify c) :
      Verdict runs classify (.ok ())

theorem Verdict.eq_verify {runs : List Run} {classify : Nat → Option Rule}
    {outcome : Except Fault Unit} (verdict : Verdict runs classify outcome) :
    verify runs classify = outcome := by
  cases verdict with
  | unordered i a b first => exact verify_of_overlap classify first
  | coverage c free inside differ before =>
    exact verify_of_difference (ordered_of_not_overlap free) classify inside differ before
  | accepted free same => exact verify_of_agreement (ordered_of_not_overlap free) same

theorem verdict_verify (runs : List Run) (classify : Nat → Option Rule) :
    Verdict runs classify (verify runs classify) := by
  cases checked : checkOrderFrom 1 runs with
  | error fault =>
    obtain ⟨i, a, b, first, _⟩ := (checkOrderFrom_eq_error_iff 1 runs fault).mp checked
    rw [verify_of_overlap classify first]
    exact .unordered i a b first
  | ok =>
    have ordered := ordered_of_checkOrderFrom checked
    have free := not_overlap_of_ordered ordered
    cases searched : firstDifference? (ruleAt runs) classify CodePoint.count 0 with
    | none =>
      have same := (firstDifference?_count_eq_none_iff _ _).mp searched
      rw [verify_of_agreement ordered same]
      exact .accepted free same
    | some c =>
      obtain ⟨inside, differ, before⟩ := (firstDifference?_count_eq_some_iff _ _ c).mp searched
      rw [verify_of_difference ordered classify inside differ before]
      exact .coverage c free inside differ before

theorem verify_eq_ok_iff (runs : List Run) (classify : Nat → Option Rule) :
    verify runs classify = .ok () ↔
      Ordered runs ∧ ∀ c ≤ CodePoint.last, ruleAt runs c = classify c := by
  constructor
  · intro accepted
    have verdict := verdict_verify runs classify
    rw [accepted] at verdict
    cases verdict with
    | accepted free same => exact ⟨ordered_of_not_overlap free, same⟩
  · intro h
    exact verify_of_agreement h.1 h.2

theorem verify_of_not_ordered {runs : List Run} (classify : Nat → Option Rule)
    (unordered : ¬Ordered runs) :
    ∃ index start stop, verify runs classify = .error (.unordered index start stop) := by
  cases checked : checkOrderFrom 1 runs with
  | ok => exact absurd (ordered_of_checkOrderFrom checked) unordered
  | error fault =>
    obtain ⟨i, a, b, overlap, _⟩ := (checkOrderFrom_eq_error_iff 1 runs fault).mp checked
    exact ⟨i + 1, b.start, a.stop, verify_of_overlap classify overlap⟩

theorem Ordered.verify_ruleAt {runs : List Run} (ordered : Ordered runs) :
    verify runs (ruleAt runs) = .ok () :=
  verify_of_agreement ordered fun _ _ => rfl

theorem ruleAt_eq_of_verify {classify : Nat → Option Rule} {xs ys : List Run}
    (acceptedX : verify xs classify = .ok ()) (acceptedY : verify ys classify = .ok ()) (c : Nat) :
    ruleAt xs c = ruleAt ys c := by
  by_cases inside : c ≤ CodePoint.last
  · rw [((verify_eq_ok_iff xs classify).mp acceptedX).2 c inside,
      ((verify_eq_ok_iff ys classify).mp acceptedY).2 c inside]
  · have beyond := Nat.lt_of_not_le inside
    rw [ruleAt_eq_none_of_last_lt xs beyond, ruleAt_eq_none_of_last_lt ys beyond]

/-- Runs in order cover exactly the graph of a classification if they give each code point its
rule. -/
theorem Ordered.graph_iff {runs : List Run} (ordered : Ordered runs)
    (classify : Nat → Option Rule) :
    (∀ c rule, (∃ r ∈ runs, r.start ≤ c ∧ c < r.stop ∧ r.rule = rule) ↔
      c ≤ CodePoint.last ∧ classify c = some rule) ↔
      ∀ c ≤ CodePoint.last, ruleAt runs c = classify c := by
  simp only [← ordered.ruleAt_eq_some_iff]
  constructor
  · intro graph c inside
    apply Option.ext
    intro rule
    rw [graph c rule, and_iff_right inside]
  · intro same c rule
    by_cases inside : c ≤ CodePoint.last
    · rw [same c inside, and_iff_right inside]
    · simp [ruleAt_eq_none_of_last_lt runs (Nat.lt_of_not_le inside), inside]

/-- The first overlap of neighbours is reported, else the first code point with another rule than
in the classification; what is left is accepted. -/
theorem verify_exact (runs : List Run) (classify : Nat → Option Rule) :
    (∀ outcome, verify runs classify = outcome ↔ Verdict runs classify outcome) ∧
    (verify runs classify = .ok () ↔
      Ordered runs ∧ ∀ c rule, (∃ r ∈ runs, r.start ≤ c ∧ c < r.stop ∧ r.rule = rule) ↔
        c ≤ CodePoint.last ∧ classify c = some rule) := by
  refine ⟨fun outcome => ⟨?_, Verdict.eq_verify⟩, ?_⟩
  · rintro rfl
    exact verdict_verify runs classify
  · rw [verify_eq_ok_iff]
    exact and_congr_right fun ordered => (ordered.graph_iff classify).symm

def Table.touchingRule (c : Nat) : Option Rule :=
  if c = 0x20 then some .whitespace
  else if 0x30 ≤ c ∧ c ≤ 0x39 then some .identifierPart
  else if 0x3A ≤ c ∧ c ≤ 0x3E then some .identifierStart
  else none

/-- Without the last run the code point right behind the digits is missing. -/
theorem verify_exact_touching :
    verify Table.touching Table.touchingRule = .ok () ∧
      verify (Table.touching.take 2) Table.touchingRule =
        .error (.coverage 0x3A (some .identifierStart) none) := by
  have ordered : Ordered Table.touching := by decide
  refine ⟨(verify_exact _ _).2.mpr ⟨ordered, fun c rule => ?graph⟩, ?missing⟩
  case graph =>
    simp only [Table.touching, Table.touchingRule, List.mem_cons, List.not_mem_nil, or_false,
      exists_eq_or_imp, exists_eq_left, Run.stop, CodePoint.last]
    constructor
    · rintro (⟨low, high, rfl⟩ | ⟨low, high, rfl⟩ | ⟨low, high, rfl⟩) <;> grind
    · rintro ⟨_, found⟩
      grind
  case missing =>
    refine ((verify_exact _ _).1 _).mpr (.coverage 0x3A (not_overlap_of_ordered ?_) ?_ ?_ ?_) <;>
      decide

end LexicalRuns
