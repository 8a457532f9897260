import LexicalRuns.Proofs.EncodingInvariant

/-! What encoding is good for. A table made of the runs gives back the classification, and the runs
are the canonical ones, so that encoding what a table says changes nothing exactly if its runs are
canonical already. -/
namespace LexicalRuns.Encoding

/-- Encoding, making a table and looking up is the classification on code points and nothing
beyond them. -/
theorem lookup_encode (classify : Nat → Option Rule) :
    ∃ summary t, encode classify = .ok summary ∧ Table.ofRuns summary.runs = .ok t ∧
      ∀ c, t.lookup c = if c ≤ CodePoint.last then classify c else none := by
  obtain ⟨runs, encoded, encodes⟩ := exists_encode classify
  obtain ⟨t, made, looked⟩ := Table.exists_ofRuns encodes.ordered
  refine ⟨.ofRuns runs, t, encoded, made, fun c => ?_⟩
  rw [looked]
  split
  next inside => exact encodes.covers c (Nat.lt_succ_of_le inside)
  next beyond => exact ruleAt_eq_none_of_last_lt runs (Nat.lt_of_not_le beyond)

theorem encodes_lookup_iff (t : Table) :
    Encodes t.lookup CodePoint.count t.runs.toList ↔ Canonical t.runs.toList := by
  have looked : t.lookup = ruleAt t.runs.toList := funext t.lookup_eq_ruleAt
  rw [looked, encodes_count_iff, and_iff_right t.ordered.verify_ruleAt]

/-- Of all runs that pass verification the encoding is the canonical list; encoding the rules of a
table gives back its runs if and only if they are canonical. -/
theorem encode_canonical :
    (∀ classify : Nat → Option Rule, ∃ summary, encode classify = .ok summary ∧
      ∀ runs, verify runs classify = .ok () ∧ Canonical runs ↔ runs = summary.runs) ∧
    ∀ (runs : List Run) (t : Table), Table.ofRuns runs = .ok t →
      ((∃ summary, encode t.lookup = .ok summary ∧ summary.runs = runs) ↔ Canonical runs) := by
  constructor
  · intro classify
    obtain ⟨chosen, encoded, encodes⟩ := exists_encode classify
    refine ⟨.ofRuns chosen, encoded, fun runs => ?_⟩
    rw [← encodes_count_iff]
    constructor
    · exact fun others => others.unique encodes
    · intro same
      exact same ▸ encodes
  · intro runs t made
    obtain rfl := (Table.ofRuns_eq_ok_iff runs t).mp made
    rw [← encodes_lookup_iff]
    constructor
    · intro recovered
      obtain ⟨summary, encoded, same⟩ := recovered
      exact same ▸ ((encode_eq_ok_iff _ _).mp encoded).1
    · intro encodes
      exact ⟨.ofRuns t.runs.toList, (encode_eq_ok_iff _ _).mpr ⟨encodes, rfl⟩, rfl⟩

/-- Six hundred code points with one rule: a full run and the rest. -/
def fullAndRest : List Run := [
  ⟨0x1000, 511, .identifierPart, by decide, by decide, by decide⟩,
  ⟨0x11FF, 89, .identifierPart, by decide, by decide, by decide⟩]

def halves : List Run := [
  ⟨0x1000, 300, .identifierPart, by decide, by decide, by decide⟩,
  ⟨0x112C, 300, .identifierPart, by decide, by decide, by decide⟩]

/-- The full run comes back from encoding, the halves do not. -/
theorem encode_canonical_six_hundred :
    (∃ t, Table.ofRuns fullAndRest = .ok t ∧
      ∃ summary, encode t.lookup = .ok summary ∧ summary.runs = fullAndRest) ∧
    ∃ t, Table.ofRuns halves = .ok t ∧
      ¬∃ summary, encode t.lookup = .ok summary ∧ summary.runs = halves := by
  obtain ⟨full, madeFull, _⟩ := Table.exists_ofRuns (show Ordered fullAndRest by decide)
  obtain ⟨half, madeHalf, _⟩ := Table.exists_ofRuns (show Ordered halves by decide)
  have canonical : Canonical fullAndRest := by decide
  have cut : ¬Canonical halves := by decide
  exact ⟨⟨full, madeFull, (encode_canonical.2 fullAndRest full madeFull).mpr canonical⟩,
    half, madeHalf, mt (encode_canonical.2 halves half madeHalf).mp cut⟩

end LexicalRuns.Encoding
