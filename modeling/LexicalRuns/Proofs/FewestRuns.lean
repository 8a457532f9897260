import LexicalRuns.Proofs.EncodingInvariant
import Mathlib.Data.List.Nodup
import Mathlib.Data.List.Perm.Subperm

/-! The fewest runs. A canonical run reaches as far as any run that contains its start, since it
stops at the end of its stretch or is full. So no two canonical runs start in the same run of another
list with the same rules, and the other list has at least one run for each of them. -/
namespace LexicalRuns

def host? (runs : List Run) (r : Run) : Option Run := runs.find? (·.contains r.start)

theorem host?_eq_some {runs : List Run} {r host : Run} (found : host? runs r = some host) :
    host ∈ runs ∧ host.contains r.start = true := by
  have inside := List.find?_some (p := fun other : Run => other.contains r.start) found
  exact ⟨List.mem_of_find?_eq_some found, inside⟩

section Counting

variable {xs ys : List Run}

theorem exists_host (orderedX : Ordered xs) (same : ∀ c, ruleAt xs c = ruleAt ys c) {x : Run}
    (member : x ∈ xs) : ∃ y ∈ ys, host? ys x = some y := by
  have covered := orderedX.ruleAt_start member
  rw [same, ruleAt, Option.map_eq_some_iff] at covered
  obtain ⟨y, found, _⟩ := covered
  exact ⟨y, List.mem_of_find?_eq_some found, found⟩

/-- Of two canonical runs in one run the first would contain the start of the second. -/
theorem Canonical.eq_of_host (canonical : Canonical xs) (orderedX : Ordered xs)
    (orderedY : Ordered ys) (same : ∀ c, ruleAt xs c = ruleAt ys c) {a b y : Run}
    (memberA : a ∈ xs) (memberB : b ∈ xs) (hostA : host? ys a = some y)
    (hostB : host? ys b = some y) : a = b := by
  obtain ⟨memberY, inA⟩ := host?_eq_some hostA
  have inB := (host?_eq_some hostB).2
  have stopA := canonical.stop_le orderedX orderedY same memberA memberY inA
  have stopB := canonical.stop_le orderedX orderedY same memberB memberY inB
  rw [Run.contains_iff] at inA inB
  rcases Nat.le_total a.start b.start with before | before
  · apply orderedX.eq_of_contains memberA memberB (c := b.start)
    · exact (Run.contains_iff a b.start).mpr ⟨before, by omega⟩
    · exact b.contains_start
  · apply orderedX.eq_of_contains memberA memberB (c := a.start)
    · exact a.contains_start
    · exact (Run.contains_iff b a.start).mpr ⟨before, by omega⟩

theorem Canonical.length_le (canonical : Canonical xs) (orderedX : Ordered xs)
    (orderedY : Ordered ys) (same : ∀ c, ruleAt xs c = ruleAt ys c) : xs.length ≤ ys.length := by
  have distinct : (xs.map (host? ys)).Nodup := by
    apply orderedX.nodup.map_on
    intro a memberA b memberB equal
    obtain ⟨y, _, hostA⟩ := exists_host orderedX same memberA
    exact canonical.eq_of_host orderedX orderedY same memberA memberB hostA (equal ▸ hostA)
  have among : xs.map (host? ys) ⊆ ys.map some := by
    intro host member
    obtain ⟨x, memberX, rfl⟩ := List.mem_map.mp member
    obtain ⟨y, memberY, found⟩ := exists_host orderedX same memberX
    exact List.mem_map.mpr ⟨y, memberY, found.symm⟩
  have fewer := (List.subperm_of_subset distinct among).length_le
  simpa only [List.length_map] using fewer

end Counting

namespace Encoding

/-- The encoding of a classification verifies against it, and nothing that does is shorter. -/
theorem encode_shortest (classify : Nat → Option Rule) :
    ∃ summary, encode classify = .ok summary ∧ verify summary.runs classify = .ok () ∧
      ∀ runs, verify runs classify = .ok () → summary.runs.length ≤ runs.length := by
  obtain ⟨chosen, encoded, encodes⟩ := exists_encode classify
  obtain ⟨accepted, canonical⟩ := (encodes_count_iff classify chosen).mp encodes
  refine ⟨.ofRuns chosen, encoded, accepted, fun runs verified => ?_⟩
  have ordered := ((verify_eq_ok_iff runs classify).mp verified).1
  exact canonical.length_le encodes.ordered ordered (ruleAt_eq_of_verify accepted verified)

def thirds : List Run := [
  ⟨0x1000, 200, .identifierPart, by decide, by decide, by decide⟩,
  ⟨0x10C8, 200, .identifierPart, by decide, by decide, by decide⟩,
  ⟨0x1190, 200, .identifierPart, by decide, by decide, by decide⟩]

/-- Three runs are accepted, and the encoding needs no more. -/
theorem encode_shortest_thirds :
    verify thirds (ruleAt thirds) = .ok () ∧
      ∃ summary, encode (ruleAt thirds) = .ok summary ∧ summary.runs.length ≤ 3 := by
  have ordered : Ordered thirds := by decide
  obtain ⟨summary, encoded, _, shortest⟩ := encode_shortest (ruleAt thirds)
  exact ⟨ordered.verify_ruleAt, summary, encoded, shortest thirds ordered.verify_ruleAt⟩

end Encoding

end LexicalRuns
