import LexicalRuns.Proofs.VerificationVerdict

/-! Canonical runs. Many lists of runs give the same classification: a stretch can be cut in two
anywhere. Only one of them cuts no stretch before a run is full, and that is the canonical one. -/
namespace LexicalRuns

/-- A run that is followed at once by one with its rule is full. -/
def Canonical (runs : List Run) : Prop :=
  ∀ a ∈ runs, ∀ b ∈ runs, a.stop = b.start → a.rule = b.rule → a.length = Run.maxLength

instance (runs : List Run) : Decidable (Canonical runs) :=
  inferInstanceAs (Decidable (∀ a ∈ runs, ∀ b ∈ runs, _ → _ → _))

/-- A run behind which its stretch goes on is full. -/
theorem Canonical.length_eq {xs : List Run} (canonical : Canonical xs) (ordered : Ordered xs)
    {x : Run} (member : x ∈ xs) (goesOn : ruleAt xs x.stop = some x.rule) :
    x.length = Run.maxLength := by
  obtain ⟨next, memberNext, start, stop, rule⟩ := (ordered.ruleAt_eq_some_iff _ _).mp goesOn
  -- starting earlier, the next run would share the last code point of `x`
  have touch : x.stop = next.start := by
    apply Nat.le_antisymm _ start
    apply Nat.le_of_not_lt
    intro before
    have reach := x.start_lt_stop
    have inNext := (Run.contains_iff next (x.stop - 1)).mpr ⟨by omega, by omega⟩
    have inX := (Run.contains_iff x (x.stop - 1)).mpr ⟨by omega, by omega⟩
    obtain rfl := ordered.eq_of_contains memberNext member inNext inX
    omega
  exact canonical x member next memberNext touch rule.symm

/-- If a run of another list went on behind a canonical run, the stretch would go on after a run
that is not full. -/
theorem Canonical.stop_le {xs ys : List Run} (canonical : Canonical xs) (orderedX : Ordered xs)
    (orderedY : Ordered ys) (same : ∀ c, ruleAt xs c = ruleAt ys c) {x y : Run} (memberX : x ∈ xs)
    (memberY : y ∈ ys) (inside : y.contains x.start = true) : y.stop ≤ x.stop := by
  obtain ⟨low, high⟩ := (Run.contains_iff y x.start).mp inside
  have reach := x.start_lt_stop
  apply Nat.le_of_not_lt
  intro longer
  have rule : x.rule = y.rule := by
    have atStart := same x.start
    rw [orderedX.ruleAt_start memberX, orderedY.ruleAt_of_mem memberY low high] at atStart
    exact Option.some.inj atStart
  have goesOn : ruleAt xs x.stop = some x.rule := by
    rw [same, rule]
    exact orderedY.ruleAt_of_mem memberY (by omega) longer
  have full := canonical.length_eq orderedX memberX goesOn
  have fits := y.fits
  simp only [Run.stop] at longer
  omega

section Heads

variable {x y : Run} {xs ys : List Run}

theorem head_start_le (orderedX : Ordered (x :: xs)) (orderedY : Ordered (y :: ys))
    (same : ∀ c, ruleAt (x :: xs) c = ruleAt (y :: ys) c) : x.start ≤ y.start := by
  have covered := orderedY.ruleAt_start (List.mem_cons_self ..)
  rw [← same, orderedX.ruleAt_eq_some_iff] at covered
  obtain ⟨r, member, low, _⟩ := covered
  rcases List.mem_cons.mp member with rfl | member
  · exact low
  · have apart := (List.pairwise_cons.mp orderedX).1 r member
    have := x.start_lt_stop
    omega

theorem tail_ruleAt (orderedX : Ordered (x :: xs)) (orderedY : Ordered (x :: ys))
    (same : ∀ c, ruleAt (x :: xs) c = ruleAt (x :: ys) c) (c : Nat) :
    ruleAt xs c = ruleAt ys c := by
  by_cases before : c < x.stop
  · have none (zs : List Run) (ordered : Ordered (x :: zs)) : ruleAt zs c = none := by
      apply ruleAt_eq_none_of_lt_starts
      intro r member
      have := (List.pairwise_cons.mp ordered).1 r member
      omega
    rw [none xs orderedX, none ys orderedY]
  · have equal := same c
    simpa [ruleAt_cons, before] using equal

end Heads

/-- Leaving runs out makes no two of them neighbours. -/
theorem Canonical.subset {xs ys : List Run} (canonical : Canonical ys) (subset : xs ⊆ ys) :
    Canonical xs :=
  fun a memberA b memberB => canonical a (subset memberA) b (subset memberB)

theorem Canonical.tail {r : Run} {runs : List Run} (canonical : Canonical (r :: runs)) :
    Canonical runs :=
  canonical.subset (List.subset_cons_self r runs)

/-- No run starts where the last one stops. -/
theorem Canonical.concat {runs : List Run} (canonical : Canonical runs) {r : Run}
    (before : ∀ a ∈ runs, a.stop ≤ r.start)
    (parted : ∀ a ∈ runs, a.stop = r.start → a.rule = r.rule → a.length = Run.maxLength) :
    Canonical (runs ++ [r]) := by
  intro a memberA b memberB touch rule
  have reach := r.start_lt_stop
  rcases List.mem_append.mp memberA with earlierA | lastA <;>
    rcases List.mem_append.mp memberB with earlierB | lastB
  · exact canonical a earlierA b earlierB touch rule
  · obtain rfl := List.mem_singleton.mp lastB
    exact parted a earlierA touch rule
  · obtain rfl := List.mem_singleton.mp lastA
    have := before b earlierB
    have := b.start_lt_stop
    omega
  · obtain rfl := List.mem_singleton.mp lastA
    obtain rfl := List.mem_singleton.mp lastB
    omega

theorem Canonical.unique {xs ys : List Run} (canonicalX : Canonical xs) (canonicalY : Canonical ys)
    (orderedX : Ordered xs) (orderedY : Ordered ys) (same : ∀ c, ruleAt xs c = ruleAt ys c) :
    xs = ys := by
  induction xs generalizing ys with
  | nil =>
    cases ys with
    | nil => rfl
    | cons y ys =>
      have covered := same y.start
      simp [ruleAt_cons, y.start_lt_stop] at covered
  | cons x xs ih =>
    cases ys with
    | nil =>
      have covered := same x.start
      simp [ruleAt_cons, x.start_lt_stop] at covered
    | cons y ys =>
      have back (c : Nat) : ruleAt (y :: ys) c = ruleAt (x :: xs) c := (same c).symm
      have start : x.start = y.start :=
        Nat.le_antisymm (head_start_le orderedX orderedY same) (head_start_le orderedY orderedX back)
      have rule : x.rule = y.rule := by
        have atStart := same x.start
        rw [orderedX.ruleAt_start (by simp), start, orderedY.ruleAt_start (by simp)] at atStart
        exact Option.some.inj atStart
      have stop : x.stop = y.stop := by
        apply Nat.le_antisymm
        · exact canonicalY.stop_le orderedY orderedX back (by simp) (by simp)
            (start ▸ x.contains_start)
        · exact canonicalX.stop_le orderedX orderedY same (by simp) (by simp)
            (start ▸ y.contains_start)
      have length : x.length = y.length := by
        simp only [Run.stop] at stop
        omega
      obtain rfl : x = y := Run.ext start length rule
      have tails := ih canonicalX.tail canonicalY.tail orderedX.of_cons orderedY.of_cons
        (tail_ruleAt orderedX orderedY same)
      rw [tails]

/-- Canonical runs for the part of a classification before `c`. -/
structure Encodes (classify : Nat → Option Rule) (c : Nat) (runs : List Run) : Prop where
  ordered : Ordered runs
  within : ∀ r ∈ runs, r.stop ≤ c
  covers : ∀ d < c, ruleAt runs d = classify d
  canonical : Canonical runs

namespace Encodes

variable {classify : Nat → Option Rule} {c : Nat} {runs : List Run}

theorem unique {xs ys : List Run} (first : Encodes classify c xs) (second : Encodes classify c ys) :
    xs = ys := by
  refine first.canonical.unique second.canonical first.ordered second.ordered fun d => ?_
  by_cases before : d < c
  · rw [first.covers d before, second.covers d before]
  · have late (r : Run) (stop : r.stop ≤ c) : r.stop ≤ d := by omega
    rw [ruleAt_eq_none_of_stops_le fun r member => late r (first.within r member),
      ruleAt_eq_none_of_stops_le fun r member => late r (second.within r member)]

theorem congr {other : Nat → Option Rule} (encodes : Encodes classify c runs)
    (same : ∀ d < c, classify d = other d) : Encodes other c runs :=
  ⟨encodes.ordered, encodes.within, fun d below => (encodes.covers d below).trans (same d below),
    encodes.canonical⟩

theorem sublist {other : Nat → Option Rule} {part : List Run} (encodes : Encodes classify c runs)
    (sublist : part.Sublist runs) (same : ∀ d < c, ruleAt part d = other d) :
    Encodes other c part :=
  ⟨encodes.ordered.sublist sublist, fun r member => encodes.within r (sublist.subset member), same,
    encodes.canonical.subset sublist.subset⟩

theorem nil (classify : Nat → Option Rule) : Encodes classify 0 [] :=
  ⟨.nil, nofun, nofun, nofun⟩

theorem gap (encodes : Encodes classify c runs) (empty : classify c = none) :
    Encodes classify (c + 1) runs := by
  refine ⟨encodes.ordered, fun r member => Nat.le_succ_of_le (encodes.within r member), ?_,
    encodes.canonical⟩
  intro d below
  rcases Nat.lt_succ_iff_lt_or_eq.mp below with below | rfl
  · exact encodes.covers d below
  · rw [ruleAt_eq_none_of_stops_le encodes.within, empty]

/-- A run is added after those before it, if it does not continue one that is not full. -/
theorem append (encodes : Encodes classify c runs) {r : Run} (start : r.start = c)
    (same : ∀ d, c ≤ d → d < r.stop → classify d = some r.rule)
    (parted : ∀ a ∈ runs, a.stop = c → a.rule = r.rule → a.length = Run.maxLength) :
    Encodes classify r.stop (runs ++ [r]) := by
  have reach : c < r.stop := start ▸ r.start_lt_stop
  refine ⟨?_, ?_, ?_, ?_⟩
  · refine List.pairwise_append.mpr ⟨encodes.ordered, List.pairwise_singleton _ r, ?_⟩
    intro a member b last
    obtain rfl := List.mem_singleton.mp last
    exact start ▸ encodes.within a member
  · intro a member
    rcases List.mem_append.mp member with member | last
    · exact Nat.le_trans (encodes.within a member) (Nat.le_of_lt reach)
    · exact Nat.le_of_eq (congrArg Run.stop (List.mem_singleton.mp last))
  · intro d below
    rw [ruleAt_append]
    by_cases before : d < c
    · have late : ¬r.start ≤ d := by omega
      simp [encodes.covers d before, ruleAt_cons, late]
    · have low : r.start ≤ d := by omega
      have early (a : Run) (member : a ∈ runs) : a.stop ≤ d := by
        have := encodes.within a member
        omega
      simp [ruleAt_eq_none_of_stops_le early, ruleAt_cons, low, below,
        same d (by omega) below]
  · subst start
    exact encodes.canonical.concat encodes.within parted

end Encodes

/-- For the whole code point space: the canonical runs among those that verification accepts. -/
theorem encodes_count_iff (classify : Nat → Option Rule) (runs : List Run) :
    Encodes classify CodePoint.count runs ↔ verify runs classify = .ok () ∧ Canonical runs := by
  rw [verify_eq_ok_iff]
  constructor
  · intro encodes
    exact ⟨⟨encodes.ordered, fun c inside => encodes.covers c (Nat.lt_succ_of_le inside)⟩,
      encodes.canonical⟩
  · intro h
    obtain ⟨⟨ordered, same⟩, canonical⟩ := h
    exact ⟨ordered, fun r _ => r.stop_le_count, fun c below => same c (Nat.le_of_lt_succ below),
      canonical⟩

end LexicalRuns
