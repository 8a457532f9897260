import LexicalRuns.Proofs.RunOrder

/-! What checking the order decides. Comparing neighbours accepts exactly the lists in which every
run ends before any later one starts. The others are refused at the run with which the order is
lost: the runs before it are in order, together with it they are not. -/
namespace LexicalRuns

/-- The first place up to which, and with which, the runs are not in order. -/
structure FirstDisorder (runs : List Run) (j : Nat) : Prop where
  positive : 1 ≤ j
  broken : ¬Ordered (runs.take (j + 1))
  before : ∀ k, 1 ≤ k → k < j → Ordered (runs.take (k + 1))

theorem overlap_take_iff (runs : List Run) (n i : Nat) (a b : Run) :
    Overlap (runs.take n) i a b ↔ i + 1 < n ∧ Overlap runs i a b := by
  simp only [Overlap, List.getElem?_take]
  by_cases within : i + 1 < n
  · have first : i < n := Nat.lt_of_succ_lt within
    simp [within, first]
  · simp [within]

theorem not_overlap_of_ordered_take {runs : List Run} {n : Nat} (ordered : Ordered (runs.take n))
    {i : Nat} (within : i + 1 < n) (a b : Run) : ¬Overlap runs i a b := by
  intro found
  have overlap := (overlap_take_iff runs n i a b).mpr ⟨within, found⟩
  exact not_overlap_of_ordered ordered i a b overlap

theorem exists_overlap_of_not_ordered {runs : List Run} (unordered : ¬Ordered runs) :
    ∃ i a b, Overlap runs i a b := by
  cases checked : checkOrderFrom 1 runs with
  | ok => exact absurd (ordered_of_checkOrderFrom checked) unordered
  | error fault =>
    obtain ⟨i, a, b, overlap, _⟩ := (checkOrderFrom_eq_error_iff 1 runs fault).mp checked
    exact ⟨i, a, b, overlap.found⟩

theorem FirstOverlap.firstDisorder {runs : List Run} {i : Nat} {a b : Run}
    (h : FirstOverlap runs i a b) : FirstDisorder runs (i + 1) := by
  refine ⟨Nat.le_add_left 1 i, ?broken, ?before⟩
  case broken =>
    intro ordered
    exact not_overlap_of_ordered_take ordered (Nat.lt_succ_self _) a b h.found
  case before =>
    intro k _ early
    apply ordered_of_not_overlap
    intro j c d overlap
    obtain ⟨within, found⟩ := (overlap_take_iff runs (k + 1) j c d).mp overlap
    exact h.first j (by omega) c d found

/-- Where the order is lost, a run overlaps with the one right before it. -/
theorem FirstDisorder.exists_firstOverlap {runs : List Run} {j : Nat} (h : FirstDisorder runs j) :
    ∃ i a b, j = i + 1 ∧ FirstOverlap runs i a b := by
  have free (i : Nat) (early : i + 1 < j) (a b : Run) : ¬Overlap runs i a b := by
    have ordered := h.before (i + 1) (Nat.le_add_left 1 i) early
    exact not_overlap_of_ordered_take ordered (Nat.lt_succ_self _) a b
  obtain ⟨i, a, b, overlap⟩ := exists_overlap_of_not_ordered h.broken
  obtain ⟨within, found⟩ := (overlap_take_iff runs (j + 1) i a b).mp overlap
  rcases Nat.lt_or_eq_of_le (Nat.le_of_lt_succ within) with early | rfl
  · exact absurd found (free i early a b)
  · exact ⟨i, a, b, rfl, found, fun k early => free k (Nat.succ_lt_succ early)⟩

theorem checkOrder_eq_error_iff (runs : List Run) (fault : Fault) :
    checkOrder runs = .error fault ↔
      ∃ j a b, FirstDisorder runs j ∧ runs[j - 1]? = some a ∧ runs[j]? = some b ∧
        fault = .unordered j b.start a.stop := by
  rw [checkOrder, checkOrderFrom_eq_error_iff]
  constructor
  · rintro ⟨i, a, b, overlap, rfl⟩
    rw [Nat.add_comm]
    exact ⟨i + 1, a, b, overlap.firstDisorder, overlap.found.1, overlap.found.2.1, rfl⟩
  · rintro ⟨j, a, b, disorder, previous, here, rfl⟩
    obtain ⟨i, c, d, rfl, overlap⟩ := disorder.exists_firstOverlap
    obtain rfl := Option.some.inj (overlap.found.1.symm.trans previous)
    obtain rfl := Option.some.inj (overlap.found.2.1.symm.trans here)
    exact ⟨i, c, d, overlap, by rw [Nat.add_comm]⟩

theorem checkOrder_eq_ok_iff (runs : List Run) :
    checkOrder runs = .ok () ↔
      ∀ i j (bound : j < runs.length) (later : i < j), runs[i].stop ≤ runs[j].start := by
  rw [checkOrder, checkOrderFrom_eq_ok_iff, Ordered, List.pairwise_iff_getElem]
  constructor
  · intro apart i j bound later
    exact apart i j (Nat.lt_trans later bound) bound later
  · intro apart i j _ bound later
    exact apart i j bound later

/-- A run takes at least one code point, so that a later run starts later. -/
theorem Ordered.starts_ascend {runs : List Run} (ordered : Ordered runs) :
    runs.Pairwise fun a b => a.start < b.start :=
  ordered.imp fun {a _} apart => Nat.lt_of_lt_of_le a.start_lt_stop apart

/-- Neighbours stand for all pairs: the check passes if and only if every run ends before each later
one starts, and then the starts ascend and no code point lies in two runs. Otherwise the fault has
the first place at which the runs so far are out of order. -/
theorem checkOrder_exact (runs : List Run) :
    (checkOrder runs = .ok () ↔
      ∀ i j (bound : j < runs.length) (later : i < j), runs[i].stop ≤ runs[j].start) ∧
    (checkOrder runs = .ok () →
      (runs.Pairwise fun a b => a.start < b.start) ∧
      ∀ c, (runs.filter (·.contains c)).length ≤ 1) ∧
    ∀ fault, checkOrder runs = .error fault ↔
      ∃ j a b, FirstDisorder runs j ∧ runs[j - 1]? = some a ∧ runs[j]? = some b ∧
        fault = .unordered j b.start a.stop := by
  refine ⟨checkOrder_eq_ok_iff runs, ?_, checkOrder_eq_error_iff runs⟩
  intro passed
  have ordered := ordered_of_checkOrderFrom passed
  exact ⟨ordered.starts_ascend, ordered.length_filter_contains_le⟩

def turnedBack : List Run := [
  ⟨0x391, 17, .identifierStart, by decide, by decide, by decide⟩,
  ⟨0x3B1, 24, .identifierStart, by decide, by decide, by decide⟩,
  ⟨0x3A0, 2, .identifierPart, by decide, by decide, by decide⟩]

/-- The first two runs pass; the third is refused, as it overlaps with its neighbour too. -/
theorem checkOrder_exact_turned_back :
    (checkOrder (turnedBack.take 2) = .ok () ∧
      ∀ c, ((turnedBack.take 2).filter (·.contains c)).length ≤ 1) ∧
    FirstDisorder turnedBack 2 ∧ checkOrder turnedBack = .error (.unordered 2 0x3A0 0x3C9) := by
  obtain ⟨_, apart, _⟩ := checkOrder_exact (turnedBack.take 2)
  obtain ⟨_, _, refused⟩ := checkOrder_exact turnedBack
  have passed : checkOrder (turnedBack.take 2) = .ok () := rfl
  have disorder : FirstDisorder turnedBack 2 := by
    refine ⟨by decide, by decide, fun k positive early => ?_⟩
    obtain rfl : k = 1 := by omega
    decide
  exact ⟨⟨passed, (apart passed).2⟩, disorder, (refused _).mpr ⟨2, _, _, disorder, rfl, rfl, rfl⟩⟩

end LexicalRuns
