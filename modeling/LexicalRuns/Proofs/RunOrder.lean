import LexicalRuns.Table

/-! Runs in order. No code point lies in two of them, so that the first run that contains a code
point is the only one and `ruleAt` says what the whole list says about it. The order is checked on
neighbours: that is enough, and the check stops at the first neighbours that overlap. -/
namespace LexicalRuns

namespace Run

theorem contains_iff (r : Run) (c : Nat) : r.contains c = true ↔ r.start ≤ c ∧ c < r.stop := by
  simp [contains]

theorem start_lt_stop (r : Run) : r.start < r.stop := Nat.lt_add_of_pos_right r.positive

theorem stop_le_count (r : Run) : r.stop ≤ CodePoint.count := r.inside

theorem contains_start (r : Run) : r.contains r.start = true :=
  (contains_iff r r.start).mpr ⟨Nat.le_refl _, r.start_lt_stop⟩

theorem start_le_last (r : Run) : r.start ≤ CodePoint.last :=
  Nat.le_of_lt_succ (Nat.lt_of_lt_of_le r.start_lt_stop r.stop_le_count)

end Run

/-- A run does not stop before it starts. -/
theorem Ordered.nodup {runs : List Run} (ordered : Ordered runs) : runs.Nodup := by
  refine ordered.imp fun {a b} apart => ?_
  rintro rfl
  exact absurd a.start_lt_stop (Nat.not_lt.mpr apart)

theorem Ordered.eq_of_contains {runs : List Run} (ordered : Ordered runs) {a b : Run} {c : Nat}
    (memberA : a ∈ runs) (memberB : b ∈ runs) (inA : a.contains c = true)
    (inB : b.contains c = true) : a = b := by
  rw [Run.contains_iff] at inA inB
  induction ordered with
  | nil => cases memberA
  | cons first _ ih =>
    rcases List.mem_cons.mp memberA with rfl | tailA <;>
      rcases List.mem_cons.mp memberB with rfl | tailB
    · rfl
    · have := first b tailB
      omega
    · have := first a tailA
      omega
    · exact ih tailA tailB

/-- One of two runs at different places would start before the other has ended, even if the two
have the same fields. -/
theorem Ordered.length_filter_contains_le {runs : List Run} (ordered : Ordered runs) (c : Nat) :
    (runs.filter (·.contains c)).length ≤ 1 := by
  induction ordered with
  | nil => exact Nat.zero_le 1
  | @cons a rest first _ ih =>
    by_cases inside : a.contains c = true
    · have later : rest.filter (·.contains c) = [] := by
        apply List.filter_eq_nil_iff.mpr
        intro b member alsoInside
        have apart := first b member
        have stop := ((Run.contains_iff a c).mp inside).2
        have start := ((Run.contains_iff b c).mp alsoInside).1
        omega
      simp only [List.filter_cons, if_pos inside, later]
      exact Nat.le_refl 1
    · simp only [List.filter_cons, if_neg inside]
      exact ih

theorem ruleAt_eq_none_iff (runs : List Run) (c : Nat) :
    ruleAt runs c = none ↔ ∀ r ∈ runs, ¬(r.start ≤ c ∧ c < r.stop) := by
  simp [ruleAt, ← Run.contains_iff]

theorem Ordered.ruleAt_eq_some_iff {runs : List Run} (ordered : Ordered runs) (c : Nat)
    (rule : Rule) :
    ruleAt runs c = some rule ↔ ∃ r ∈ runs, r.start ≤ c ∧ c < r.stop ∧ r.rule = rule := by
  simp only [ruleAt, Option.map_eq_some_iff]
  constructor
  · intro covered
    obtain ⟨r, found, rfl⟩ := covered
    have inside := List.find?_some found
    obtain ⟨low, high⟩ := (Run.contains_iff r c).mp inside
    exact ⟨r, List.mem_of_find?_eq_some found, low, high, rfl⟩
  · intro covered
    obtain ⟨r, member, low, high, rfl⟩ := covered
    have inside := (Run.contains_iff r c).mpr ⟨low, high⟩
    cases found : runs.find? (·.contains c) with
    | none => exact absurd inside (List.find?_eq_none.mp found r member)
    | some other =>
      have alsoInside := List.find?_some found
      have same := ordered.eq_of_contains (List.mem_of_find?_eq_some found) member
        alsoInside inside
      exact ⟨other, rfl, by rw [same]⟩

theorem Ordered.ruleAt_of_mem {runs : List Run} (ordered : Ordered runs) {r : Run}
    (member : r ∈ runs) {c : Nat} (low : r.start ≤ c) (high : c < r.stop) :
    ruleAt runs c = some r.rule :=
  (ordered.ruleAt_eq_some_iff c r.rule).mpr ⟨r, member, low, high, rfl⟩

theorem Ordered.ruleAt_start {runs : List Run} (ordered : Ordered runs) {r : Run}
    (member : r ∈ runs) : ruleAt runs r.start = some r.rule :=
  ordered.ruleAt_of_mem member (Nat.le_refl _) r.start_lt_stop

theorem ruleAt_eq_none_of_last_lt (runs : List Run) {c : Nat} (beyond : CodePoint.last < c) :
    ruleAt runs c = none := by
  rw [ruleAt_eq_none_iff]
  intro r _ inside
  have bound := r.stop_le_count
  simp only [CodePoint.count, CodePoint.last] at bound beyond
  omega

@[simp] theorem ruleAt_nil (c : Nat) : ruleAt [] c = none := rfl

theorem ruleAt_append (xs ys : List Run) (c : Nat) :
    ruleAt (xs ++ ys) c = (ruleAt xs c).or (ruleAt ys c) := by
  simp only [ruleAt, List.find?_append]
  cases xs.find? (·.contains c) <;> rfl

theorem ruleAt_cons (r : Run) (runs : List Run) (c : Nat) :
    ruleAt (r :: runs) c = if r.start ≤ c ∧ c < r.stop then some r.rule else ruleAt runs c := by
  by_cases inside : r.contains c = true
  · simp [ruleAt, inside, (Run.contains_iff r c).mp inside]
  · simp [ruleAt, inside, mt (Run.contains_iff r c).mpr inside]

theorem ruleAt_eq_none_of_lt_starts {runs : List Run} {c : Nat} (late : ∀ r ∈ runs, c < r.start) :
    ruleAt runs c = none := by
  rw [ruleAt_eq_none_iff]
  intro r member inside
  have := late r member
  omega

theorem ruleAt_eq_none_of_stops_le {runs : List Run} {c : Nat} (early : ∀ r ∈ runs, r.stop ≤ c) :
    ruleAt runs c = none := by
  rw [ruleAt_eq_none_iff]
  intro r member inside
  have := early r member
  omega

/-- Every run takes at least one code point for itself. -/
theorem Ordered.length_le {runs : List Run} (ordered : Ordered runs) {low high : Nat}
    (le : low ≤ high) (within : ∀ r ∈ runs, low ≤ r.start ∧ r.stop ≤ high) :
    low + runs.length ≤ high := by
  induction ordered generalizing low with
  | nil => exact le
  | @cons r rest first _ ih =>
    have reach := r.start_lt_stop
    have bounds := within r (by simp)
    have later (b : Run) (member : b ∈ rest) : low + 1 ≤ b.start ∧ b.stop ≤ high := by
      have := first b member
      exact ⟨by omega, (within b (List.mem_cons_of_mem r member)).2⟩
    have shorter : low + 1 + rest.length ≤ high := ih (by omega) later
    simp only [List.length_cons]
    omega

/-- Comparing neighbours is enough. -/
theorem checkOrderFrom_eq_ok_iff (index : Nat) (runs : List Run) :
    checkOrderFrom index runs = .ok () ↔ Ordered runs := by
  refine ⟨ordered_of_checkOrderFrom, fun ordered => ?_⟩
  induction runs generalizing index with
  | nil => rfl
  | cons a rest ih =>
    cases rest with
    | nil => rfl
    | cons b rest =>
      obtain ⟨first, later⟩ := List.pairwise_cons.mp ordered
      have apart := first b (by simp)
      simp only [checkOrderFrom, if_neg (Nat.not_lt.mpr apart)]
      exact ih _ later

/-- The run at `i` and the next one, which starts before the first has ended. -/
def Overlap (runs : List Run) (i : Nat) (a b : Run) : Prop :=
  runs[i]? = some a ∧ runs[i + 1]? = some b ∧ b.start < a.stop

structure FirstOverlap (runs : List Run) (i : Nat) (a b : Run) : Prop where
  found : Overlap runs i a b
  first : ∀ j < i, ∀ c d, ¬Overlap runs j c d

theorem not_overlap_of_ordered {runs : List Run} (ordered : Ordered runs) (i : Nat) (a b : Run) :
    ¬Overlap runs i a b := by
  intro h
  obtain ⟨atFirst, atSecond, overlap⟩ := h
  obtain ⟨boundA, rfl⟩ := List.getElem?_eq_some_iff.mp atFirst
  obtain ⟨boundB, rfl⟩ := List.getElem?_eq_some_iff.mp atSecond
  have apart := List.pairwise_iff_getElem.mp ordered i (i + 1) boundA boundB (Nat.lt_succ_self i)
  omega

theorem overlap_zero_iff (a b : Run) (rest : List Run) (c d : Run) :
    Overlap (a :: b :: rest) 0 c d ↔ a = c ∧ b = d ∧ d.start < c.stop := by
  simp [Overlap]

theorem overlap_succ_iff (a : Run) (rest : List Run) (i : Nat) (c d : Run) :
    Overlap (a :: rest) (i + 1) c d ↔ Overlap rest i c d := by
  simp [Overlap]

theorem firstOverlap_zero {a b : Run} (overlap : b.start < a.stop) (rest : List Run) :
    FirstOverlap (a :: b :: rest) 0 a b :=
  ⟨(overlap_zero_iff ..).mpr ⟨rfl, rfl, overlap⟩, nofun⟩

/-- Behind two neighbours in order the count goes on. -/
theorem firstOverlap_succ_iff {a b : Run} (apart : ¬b.start < a.stop) (rest : List Run) (i : Nat)
    (c d : Run) : FirstOverlap (a :: b :: rest) (i + 1) c d ↔ FirstOverlap (b :: rest) i c d := by
  constructor
  · intro h
    refine ⟨(overlap_succ_iff ..).mp h.found, fun j below e f => ?_⟩
    exact mt (overlap_succ_iff ..).mpr (h.first (j + 1) (Nat.succ_lt_succ below) e f)
  · intro h
    refine ⟨(overlap_succ_iff ..).mpr h.found, fun j below e f => ?_⟩
    cases j with
    | zero =>
      rw [overlap_zero_iff]
      rintro ⟨rfl, rfl, overlap⟩
      exact apart overlap
    | succ j => exact mt (overlap_succ_iff ..).mp (h.first j (Nat.lt_of_succ_lt_succ below) e f)

theorem FirstOverlap.unique {runs : List Run} {i j : Nat} {a b c d : Run}
    (h : FirstOverlap runs i a b) (other : FirstOverlap runs j c d) : i = j ∧ a = c ∧ b = d := by
  have same : i = j := by
    rcases Nat.lt_trichotomy i j with lt | same | gt
    · exact absurd h.found (other.first i lt a b)
    · exact same
    · exact absurd other.found (h.first j gt c d)
  subst same
  have first := h.found.1.symm.trans other.found.1
  have second := h.found.2.1.symm.trans other.found.2.1
  exact ⟨rfl, Option.some.inj first, Option.some.inj second⟩

theorem checkOrderFrom_eq_error_iff (index : Nat) (runs : List Run) (fault : Fault) :
    checkOrderFrom index runs = .error fault ↔
      ∃ i a b, FirstOverlap runs i a b ∧ fault = .unordered (index + i) b.start a.stop := by
  induction runs generalizing index with
  | nil =>
    refine ⟨nofun, fun h => ?_⟩
    obtain ⟨i, a, b, first, _⟩ := h
    cases first.found.1
  | cons a rest ih =>
    cases rest with
    | nil =>
      refine ⟨nofun, fun h => ?_⟩
      obtain ⟨i, c, d, first, _⟩ := h
      cases first.found.2.1
    | cons b rest =>
      simp only [checkOrderFrom]
      split
      next overlap =>
        have here := firstOverlap_zero overlap rest
        constructor
        · intro stopped
          cases stopped
          exact ⟨0, a, b, here, rfl⟩
        · rintro ⟨i, c, d, h, rfl⟩
          obtain ⟨rfl, rfl, rfl⟩ := here.unique h
          rfl
      next apart =>
        rw [ih]
        constructor
        · rintro ⟨i, c, d, h, rfl⟩
          exact ⟨i + 1, c, d, (firstOverlap_succ_iff apart ..).mpr h, by congr 1; omega⟩
        · rintro ⟨i, c, d, h, rfl⟩
          cases i with
          | zero =>
            obtain ⟨rfl, rfl, overlap⟩ := (overlap_zero_iff ..).mp h.found
            exact absurd overlap apart
          | succ i => exact ⟨i, c, d, (firstOverlap_succ_iff apart ..).mp h, by congr 1; omega⟩

theorem ordered_of_not_overlap {runs : List Run} (free : ∀ i a b, ¬Overlap runs i a b) :
    Ordered runs := by
  cases checked : checkOrderFrom 1 runs with
  | ok => exact ordered_of_checkOrderFrom checked
  | error fault =>
    obtain ⟨i, a, b, h, _⟩ := (checkOrderFrom_eq_error_iff 1 runs fault).mp checked
    exact absurd h.found (free i a b)

end LexicalRuns
