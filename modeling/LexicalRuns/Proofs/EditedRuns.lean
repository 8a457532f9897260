import LexicalRuns.Proofs.VerificationVerdict

/-! Edited runs. A list that verifies against a classification has no room for another one near it.
Taking a run away uncovers its code points, and from that the rest follows: a list with one run more
would verify only if the list without it did not, and two lists that differ in one run cannot both
cover what the others leave open. Runs at two exchanged places are out of order. -/
namespace LexicalRuns

theorem Run.eq_of_contains_iff {a b : Run}
    (same : ∀ c, a.contains c = true ↔ b.contains c = true) (rule : a.rule = b.rule) : a = b := by
  simp only [Run.contains_iff] at same
  have reachA := a.start_lt_stop
  have reachB := b.start_lt_stop
  have startA := (same a.start).mp ⟨Nat.le_refl _, reachA⟩
  have startB := (same b.start).mpr ⟨Nat.le_refl _, reachB⟩
  have lastA := (same (a.stop - 1)).mp (by omega)
  have lastB := (same (b.stop - 1)).mpr (by omega)
  have start : a.start = b.start := by omega
  have stop : a.stop = b.stop := by omega
  have length : a.length = b.length := by
    simp only [Run.stop] at stop
    omega
  exact Run.ext start length rule

theorem Ordered.ruleAt_eraseIdx {runs : List Run} (ordered : Ordered runs) {i : Nat}
    (bound : i < runs.length) (c : Nat) :
    ruleAt (runs.eraseIdx i) c = if runs[i].contains c then none else ruleAt runs c := by
  induction runs generalizing i with
  | nil => exact absurd bound (Nat.not_lt_zero i)
  | cons a rest ih =>
    obtain ⟨first, later⟩ := List.pairwise_cons.mp ordered
    cases i with
    | zero =>
      simp only [List.eraseIdx_cons_zero, List.getElem_cons_zero]
      split
      next inside =>
        apply ruleAt_eq_none_of_lt_starts
        intro r member
        have apart := first r member
        have stop := ((Run.contains_iff a c).mp inside).2
        omega
      next outside => rw [ruleAt_cons, if_neg (mt (Run.contains_iff a c).mpr outside)]
    | succ i =>
      have bound : i < rest.length := Nat.lt_of_succ_lt_succ bound
      simp only [List.eraseIdx_cons_succ, List.getElem_cons_succ, ruleAt_cons, ih later bound]
      split
      next inside =>
        -- a code point of `a` is in no later run
        have outside : ¬rest[i].contains c = true := by
          rw [Run.contains_iff]
          have apart := first rest[i] (List.getElem_mem bound)
          omega
        rw [if_neg outside]
      next => rfl

section Accepted

variable {classify : Nat → Option Rule} {runs : List Run}

/-- The first code point of a missing run is the first without its rule. -/
theorem verify_eraseIdx (accepted : verify runs classify = .ok ()) {i : Nat}
    (bound : i < runs.length) :
    verify (runs.eraseIdx i) classify =
      .error (.coverage runs[i].start (some runs[i].rule) none) := by
  obtain ⟨ordered, same⟩ := (verify_eq_ok_iff runs classify).mp accepted
  have inside := runs[i].start_le_last
  have expected : classify runs[i].start = some runs[i].rule := by
    rw [← same _ inside]
    exact ordered.ruleAt_start (List.getElem_mem bound)
  have found : ruleAt (runs.eraseIdx i) runs[i].start = none := by
    rw [ordered.ruleAt_eraseIdx bound, if_pos runs[i].contains_start]
  have differ : ruleAt (runs.eraseIdx i) runs[i].start ≠ classify runs[i].start := by
    rw [found, expected]
    exact (Option.some_ne_none _).symm
  have before (d : Nat) (early : d < runs[i].start) :
      ruleAt (runs.eraseIdx i) d = classify d := by
    have outside : ¬runs[i].contains d = true := by
      rw [Run.contains_iff]
      omega
    rw [ordered.ruleAt_eraseIdx bound, if_neg outside]
    exact same d (by omega)
  have shorter : Ordered (runs.eraseIdx i) := ordered.sublist (List.eraseIdx_sublist runs i)
  rw [verify_of_difference shorter classify inside differ before, expected, found]

theorem exists_error_of_ne_ok {outcome : Except Fault Unit} (refused : outcome ≠ .ok ()) :
    ∃ fault, outcome = .error fault := by
  cases outcome with
  | ok => exact absurd rfl refused
  | error fault => exact ⟨fault, rfl⟩

/-- Taking the new run away again gives an accepted list, which it could not if the new list were
accepted. -/
theorem verify_insertIdx_ne_ok (accepted : verify runs classify = .ok ()) {i : Nat}
    (bound : i ≤ runs.length) (r : Run) : verify (runs.insertIdx i r) classify ≠ .ok () := by
  intro longer
  have inside : i < (runs.insertIdx i r).length := by
    rw [List.length_insertIdx_of_le_length bound]
    exact Nat.lt_succ_of_le bound
  have shorter := verify_eraseIdx longer inside
  rw [List.eraseIdx_insertIdx_self, accepted] at shorter
  cases shorter

/-- What the other runs leave open is for the one run to cover. -/
theorem contains_of_eraseIdx_eq {xs ys : List Run} (acceptedX : verify xs classify = .ok ())
    (acceptedY : verify ys classify = .ok ()) {i : Nat} (boundX : i < xs.length)
    (boundY : i < ys.length) (others : xs.eraseIdx i = ys.eraseIdx i) {c : Nat}
    (inside : xs[i].contains c = true) : ys[i].contains c = true := by
  have orderedX := ((verify_eq_ok_iff xs classify).mp acceptedX).1
  have orderedY := ((verify_eq_ok_iff ys classify).mp acceptedY).1
  obtain ⟨low, high⟩ := (Run.contains_iff xs[i] c).mp inside
  have covered : ruleAt ys c = some xs[i].rule := by
    rw [ruleAt_eq_of_verify acceptedY acceptedX]
    exact orderedX.ruleAt_of_mem (List.getElem_mem boundX) low high
  have bare : ruleAt (ys.eraseIdx i) c = none := by
    rw [← others, orderedX.ruleAt_eraseIdx boundX, if_pos inside]
  by_cases alsoInside : ys[i].contains c = true
  · exact alsoInside
  · rw [orderedY.ruleAt_eraseIdx boundY, if_neg alsoInside, covered] at bare
    cases bare

theorem getElem_eq_of_eraseIdx_eq {xs ys : List Run} (acceptedX : verify xs classify = .ok ())
    (acceptedY : verify ys classify = .ok ()) {i : Nat} (boundX : i < xs.length)
    (boundY : i < ys.length) (others : xs.eraseIdx i = ys.eraseIdx i) : xs[i] = ys[i] := by
  have missing := verify_eraseIdx acceptedX boundX
  rw [others, verify_eraseIdx acceptedY boundY] at missing
  have rule : xs[i].rule = ys[i].rule := by
    simp only [Except.error.injEq, Fault.coverage.injEq, Option.some.injEq] at missing
    exact missing.2.1.symm
  refine Run.eq_of_contains_iff (fun c => ⟨?_, ?_⟩) rule
  · exact contains_of_eraseIdx_eq acceptedX acceptedY boundX boundY others
  · exact contains_of_eraseIdx_eq acceptedY acceptedX boundY boundX others.symm

theorem verify_set_ne_ok (accepted : verify runs classify = .ok ()) {i : Nat}
    (bound : i < runs.length) {r : Run} (other : r ≠ runs[i]) :
    verify (runs.set i r) classify ≠ .ok () := by
  intro replaced
  have inside : i < (runs.set i r).length := by rwa [List.length_set]
  have same := getElem_eq_of_eraseIdx_eq replaced accepted inside bound List.eraseIdx_set_eq
  rw [List.getElem_set_self] at same
  exact other same

end Accepted

def exchange (runs : List Run) (i j : Nat) (first : i < runs.length) (second : j < runs.length) :
    List Run :=
  (runs.set i runs[j]).set j runs[i]

@[simp] theorem length_exchange {runs : List Run} {i j : Nat} (first : i < runs.length)
    (second : j < runs.length) : (exchange runs i j first second).length = runs.length := by
  simp only [exchange, List.length_set]

/-- Each of two runs would have to stop before the other starts. -/
theorem not_ordered_exchange {runs : List Run} (ordered : Ordered runs) {i j : Nat}
    (first : i < runs.length) (second : j < runs.length) (lt : i < j) :
    ¬Ordered (exchange runs i j first second) := by
  intro exchanged
  have before := List.pairwise_iff_getElem.mp ordered i j first second lt
  have after := List.pairwise_iff_getElem.mp exchanged i j (by simpa) (by simpa) lt
  simp only [exchange, List.getElem_set_self, List.getElem_set_ne (Nat.ne_of_gt lt)] at after
  have reachI := runs[i].start_lt_stop
  have reachJ := runs[j].start_lt_stop
  omega

theorem exchange_comm {runs : List Run} {i j : Nat} (first : i < runs.length)
    (second : j < runs.length) (differ : i ≠ j) :
    exchange runs i j first second = exchange runs j i second first :=
  List.set_comm _ _ differ

/-- No single edit of an accepted list is accepted: a missing run is noticed at its first code
point, an additional or another run somewhere, and two exchanged runs by their order. -/
theorem verify_edited {runs : List Run} {classify : Nat → Option Rule}
    (accepted : verify runs classify = .ok ()) :
    (∀ i (bound : i < runs.length),
      verify (runs.eraseIdx i) classify =
        .error (.coverage runs[i].start (some runs[i].rule) none)) ∧
    (∀ i ≤ runs.length, ∀ r, ∃ fault, verify (runs.insertIdx i r) classify = .error fault) ∧
    (∀ i (bound : i < runs.length) r, r ≠ runs[i] →
      ∃ fault, verify (runs.set i r) classify = .error fault) ∧
    ∀ i j (first : i < runs.length) (second : j < runs.length), i ≠ j →
      ∃ index start stop,
        verify (exchange runs i j first second) classify = .error (.unordered index start stop) := by
  have ordered := ((verify_eq_ok_iff runs classify).mp accepted).1
  refine ⟨fun i bound => verify_eraseIdx accepted bound,
    fun i bound r => exists_error_of_ne_ok (verify_insertIdx_ne_ok accepted bound r),
    fun i bound r other => exists_error_of_ne_ok (verify_set_ne_ok accepted bound other), ?_⟩
  intro i j first second differ
  apply verify_of_not_ordered
  rcases Nat.lt_or_gt_of_ne differ with lt | gt
  · exact not_ordered_exchange ordered first second lt
  · rw [exchange_comm first second differ]
    exact not_ordered_exchange ordered second first gt

/-- Four code points in the gap before the digits. -/
def inGap : Run := ⟨0x2C, 4, .identifierPart, by decide, by decide, by decide⟩

def shortened : Run := ⟨0x3B, 4, .identifierStart, by decide, by decide, by decide⟩

/-- The digits are missing; four more code points have a rule; the last run is another one; the first
run stands behind the others. -/
theorem verify_edited_touching :
    verify Table.touching (ruleAt Table.touching) = .ok () ∧
      verify (Table.touching.eraseIdx 1) (ruleAt Table.touching) =
        .error (.coverage 0x30 (some .identifierPart) none) ∧
      (∃ fault,
        verify (Table.touching.insertIdx 1 inGap) (ruleAt Table.touching) = .error fault) ∧
      (∃ fault, verify (Table.touching.set 2 shortened) (ruleAt Table.touching) = .error fault) ∧
      ∃ index start stop,
        verify (exchange Table.touching 0 2 (by decide) (by decide)) (ruleAt Table.touching) =
          .error (.unordered index start stop) := by
  have ordered : Ordered Table.touching := by decide
  have accepted := ordered.verify_ruleAt
  obtain ⟨removed, inserted, replaced, exchanged⟩ := verify_edited accepted
  have other : shortened ≠ Table.touching[2] := by decide
  exact ⟨accepted, removed 1 (by decide), inserted 1 (by decide) inGap,
    replaced 2 (by decide) shortened other, exchanged 0 2 (by decide) (by decide) (by decide)⟩

end LexicalRuns
