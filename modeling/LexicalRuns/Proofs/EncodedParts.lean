import LexicalRuns.Proofs.CanonicalEncoding

/-! Encoding in parts. A classification can be cut at any code point, into what it says before and
what it says from there on. Encoding keeps nothing across the end of a run: where no run goes over the
cut, the runs of the parts are those of the whole. A run that goes over it is in neither part, and the
split of a long stretch into full runs begins anew behind the cut. -/
namespace LexicalRuns

/-- Where no run goes over a code point, the runs before it come first. -/
theorem Ordered.exists_append {runs : List Run} (ordered : Ordered runs) {p : Nat}
    (apart : ∀ r ∈ runs, r.stop ≤ p ∨ p ≤ r.start) :
    ∃ low high, runs = low ++ high ∧ (∀ r ∈ low, r.stop ≤ p) ∧ ∀ r ∈ high, p ≤ r.start := by
  induction ordered with
  | nil => exact ⟨[], [], rfl, nofun, nofun⟩
  | @cons a rest first _ ih =>
    obtain ⟨here, later⟩ := List.forall_mem_cons.mp apart
    rcases here with before | behind
    · obtain ⟨low, high, rfl, stops, starts⟩ := ih later
      exact ⟨a :: low, high, rfl, List.forall_mem_cons.mpr ⟨before, stops⟩, starts⟩
    · refine ⟨[], a :: rest, rfl, nofun, List.forall_mem_cons.mpr ⟨behind, ?_⟩⟩
      intro b member
      have := first b member
      have := a.start_lt_stop
      omega

namespace Encoding

def below (classify : Nat → Option Rule) (p c : Nat) : Option Rule :=
  if c < p then classify c else none

def onward (classify : Nat → Option Rule) (p c : Nat) : Option Rule :=
  if c < p then none else classify c

section Parts

variable {classify : Nat → Option Rule} {p : Nat} {low high : List Run}

theorem ruleAt_parts (stops : ∀ r ∈ low, r.stop ≤ p) (starts : ∀ r ∈ high, p ≤ r.start) (c : Nat) :
    ruleAt low c = below (ruleAt (low ++ high)) p c ∧
      ruleAt high c = onward (ruleAt (low ++ high)) p c := by
  by_cases before : c < p
  · have late : ruleAt high c = none :=
      ruleAt_eq_none_of_lt_starts fun r member => Nat.lt_of_lt_of_le before (starts r member)
    simp only [below, onward, if_pos before, ruleAt_append, late, Option.or_none, and_self]
  · have early : ruleAt low c = none :=
      ruleAt_eq_none_of_stops_le fun r member =>
        Nat.le_trans (stops r member) (Nat.le_of_not_lt before)
    simp only [below, onward, if_neg before, ruleAt_append, early, Option.none_or, and_self]

/-- If no run goes over the cut, each part of the runs encodes its part of the classification. -/
theorem encodes_parts (encodes : Encodes classify CodePoint.count (low ++ high))
    (stops : ∀ r ∈ low, r.stop ≤ p) (starts : ∀ r ∈ high, p ≤ r.start) :
    Encodes (below classify p) CodePoint.count low ∧
      Encodes (onward classify p) CodePoint.count high := by
  constructor
  · refine encodes.sublist (List.sublist_append_left low high) fun c inside => ?_
    rw [(ruleAt_parts stops starts c).1, below, below, encodes.covers c inside]
  · refine encodes.sublist (List.sublist_append_right low high) fun c inside => ?_
    rw [(ruleAt_parts stops starts c).2, onward, onward, encodes.covers c inside]

/-- No run of a part goes over the cut, as each part says nothing on the other side. -/
theorem not_over_of_parts (encodesLow : Encodes (below classify p) CodePoint.count low)
    (encodesHigh : Encodes (onward classify p) CodePoint.count high) (positive : 0 < p) :
    ¬∃ r ∈ low ++ high, r.contains (p - 1) = true ∧ r.contains p = true := by
  rintro ⟨r, member, before, behind⟩
  obtain ⟨start, _⟩ := (Run.contains_iff r (p - 1)).mp before
  obtain ⟨_, stop⟩ := (Run.contains_iff r p).mp behind
  have bound := r.stop_le_count
  rcases List.mem_append.mp member with inLow | inHigh
  · have covered := encodesLow.ordered.ruleAt_of_mem inLow (c := p) (by omega) stop
    rw [encodesLow.covers p (by omega), below, if_neg (Nat.lt_irrefl p)] at covered
    cases covered
  · have covered := encodesHigh.ordered.ruleAt_of_mem inHigh start (by omega)
    rw [encodesHigh.covers (p - 1) (by omega), onward, if_pos (by omega)] at covered
    cases covered

end Parts

/-- The runs of the parts, one after the other, are those of the whole if and only if none of these
has a code point on either side of the cut. -/
theorem encode_parts (classify : Nat → Option Rule) {p : Nat} (positive : 0 < p) :
    ∃ whole low high, encode classify = .ok whole ∧ encode (below classify p) = .ok low ∧
      encode (onward classify p) = .ok high ∧
      (whole.runs = low.runs ++ high.runs ↔
        ¬∃ r ∈ whole.runs, r.contains (p - 1) = true ∧ r.contains p = true) := by
  obtain ⟨whole, encodedWhole, encodes⟩ := exists_encode classify
  obtain ⟨low, encodedLow, encodesLow⟩ := exists_encode (below classify p)
  obtain ⟨high, encodedHigh, encodesHigh⟩ := exists_encode (onward classify p)
  refine ⟨.ofRuns whole, .ofRuns low, .ofRuns high, encodedWhole, encodedLow, encodedHigh, ?_⟩
  constructor
  · rintro rfl
    exact not_over_of_parts encodesLow encodesHigh positive
  · intro free
    have apart (r : Run) (member : r ∈ whole) : r.stop ≤ p ∨ p ≤ r.start := by
      rcases Nat.lt_or_ge p r.stop with crosses | before
      · rcases Nat.lt_or_ge r.start p with early | behind
        · refine absurd ⟨r, member, ?_, ?_⟩ free
          · exact (Run.contains_iff r (p - 1)).mpr ⟨by omega, by omega⟩
          · exact (Run.contains_iff r p).mpr ⟨by omega, crosses⟩
        · exact .inr behind
      · exact .inl before
    obtain ⟨before, behind, rfl, stops, starts⟩ := encodes.ordered.exists_append apart
    obtain ⟨encodesBefore, encodesBehind⟩ := encodes_parts encodes stops starts
    obtain rfl := encodesBefore.unique encodesLow
    obtain rfl := encodesBehind.unique encodesHigh
    rfl

/-- Behind a full run the stretch can be cut, in the middle of that run it cannot. -/
theorem encode_parts_six_hundred :
    (∃ whole low high, encode (ruleAt fullAndRest) = .ok whole ∧
      encode (below (ruleAt fullAndRest) 0x11FF) = .ok low ∧
      encode (onward (ruleAt fullAndRest) 0x11FF) = .ok high ∧
      whole.runs = low.runs ++ high.runs) ∧
    ∃ whole low high, encode (ruleAt fullAndRest) = .ok whole ∧
      encode (below (ruleAt fullAndRest) 0x112C) = .ok low ∧
      encode (onward (ruleAt fullAndRest) 0x112C) = .ok high ∧
      whole.runs ≠ low.runs ++ high.runs := by
  have ordered : Ordered fullAndRest := by decide
  have canonical : Canonical fullAndRest := by decide
  have encodes : Encodes (ruleAt fullAndRest) CodePoint.count fullAndRest :=
    (encodes_count_iff _ _).mpr ⟨ordered.verify_ruleAt, canonical⟩
  have runs (summary : Summary) (encoded : encode (ruleAt fullAndRest) = .ok summary) :
      summary.runs = fullAndRest :=
    ((encode_eq_ok_iff _ _).mp encoded).1.unique encodes
  obtain ⟨whole, low, high, encoded, encodedLow, encodedHigh, parts⟩ :=
    encode_parts (ruleAt fullAndRest) (p := 0x11FF) (by decide)
  obtain ⟨whole', low', high', encoded', encodedLow', encodedHigh', parts'⟩ :=
    encode_parts (ruleAt fullAndRest) (p := 0x112C) (by decide)
  refine ⟨⟨whole, low, high, encoded, encodedLow, encodedHigh, parts.mpr ?_⟩,
    whole', low', high', encoded', encodedLow', encodedHigh', fun same => parts'.mp same ?_⟩
  · rw [runs whole encoded]
    decide
  · rw [runs whole' encoded']
    exact ⟨fullAndRest[0], by decide, by decide, by decide⟩

end Encoding

end LexicalRuns
