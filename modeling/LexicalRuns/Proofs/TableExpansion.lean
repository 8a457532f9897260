import LexicalRuns.Proofs.TableLookup
import Mathlib.Data.List.Sort

/-! The code points of a table, one by one. Writing out every run lists the code points that a
lookup finds, with the rules that it finds, and nothing twice: within a run they ascend one by one,
and a later run starts where the earlier ones have stopped. As the list ascends it is determined by
what is in it, and so equal to the list made by looking up every code point. -/
namespace LexicalRuns

namespace Run

def pairs (r : Run) : List (Nat × Rule) :=
  (List.range' r.start r.length).map fun c => (c, r.rule)

theorem mem_pairs_iff (r : Run) (c : Nat) (rule : Rule) :
    (c, rule) ∈ r.pairs ↔ r.contains c = true ∧ r.rule = rule := by
  simp only [pairs, List.mem_map, List.mem_range'_1, Prod.mk.injEq, contains_iff, stop]
  constructor
  · rintro ⟨d, inside, rfl, same⟩
    exact ⟨inside, same⟩
  · rintro ⟨inside, same⟩
    exact ⟨c, inside, rfl, same⟩

theorem pairs_ascend (r : Run) : r.pairs.Pairwise fun a b => a.1 < b.1 := by
  apply List.pairwise_map.mpr
  exact List.pairwise_lt_range'

end Run

namespace Table

theorem expand_eq_flatMap (t : Table) : t.expand = t.runs.toList.flatMap Run.pairs := rfl

/-- A lookup finds exactly what is listed. -/
theorem mem_expand_iff (t : Table) (c : Nat) (rule : Rule) :
    (c, rule) ∈ t.expand ↔ t.lookup c = some rule := by
  rw [expand_eq_flatMap, lookup_eq_some_iff]
  simp only [List.mem_flatMap, Run.mem_pairs_iff]

theorem expand_ascends (t : Table) : t.expand.Pairwise fun a b => a.1 < b.1 := by
  rw [expand_eq_flatMap, List.pairwise_flatMap]
  refine ⟨fun r _ => r.pairs_ascend, t.ordered.imp fun {a b} apart => ?_⟩
  rintro ⟨c, rule⟩ inA ⟨d, other⟩ inB
  have stop := ((a.contains_iff c).mp ((a.mem_pairs_iff c rule).mp inA).1).2
  have start := ((b.contains_iff d).mp ((b.mem_pairs_iff d other).mp inB).1).1
  simp only
  omega

/-- What looking up the code points one after the other finds. -/
def scanned (t : Table) : List (Nat × Rule) :=
  (List.range CodePoint.count).filterMap fun c => (t.lookup c).map fun rule => (c, rule)

theorem mem_scanned_iff (t : Table) (c : Nat) (rule : Rule) :
    (c, rule) ∈ t.scanned ↔ c < CodePoint.count ∧ t.lookup c = some rule := by
  simp only [scanned, List.mem_filterMap, List.mem_range, Option.map_eq_some_iff, Prod.mk.injEq]
  constructor
  · rintro ⟨d, inside, found, looked, rfl, rfl⟩
    exact ⟨inside, looked⟩
  · rintro ⟨inside, looked⟩
    exact ⟨c, inside, rule, looked, rfl, rfl⟩

theorem scanned_ascends (t : Table) : t.scanned.Pairwise fun a b => a.1 < b.1 := by
  refine List.Pairwise.filterMap _ ?_ List.pairwise_lt_range
  intro c d before a fromC b fromD
  obtain ⟨_, _, rfl⟩ := Option.map_eq_some_iff.mp fromC
  obtain ⟨_, _, rfl⟩ := Option.map_eq_some_iff.mp fromD
  exact before

theorem lt_count_of_lookup {t : Table} {c : Nat} {rule : Rule} (found : t.lookup c = some rule) :
    c < CodePoint.count := by
  obtain ⟨r, _, inside, _⟩ := (t.lookup_eq_some_iff c rule).mp found
  exact Nat.lt_of_lt_of_le ((r.contains_iff c).mp inside).2 r.stop_le_count

/-- Two ascending lists with the same members are the same list. -/
theorem expand_eq_scanned (t : Table) : t.expand = t.scanned := by
  have : Std.Irrefl fun a b : Nat × Rule => a.1 < b.1 := ⟨fun a => Nat.lt_irrefl a.1⟩
  have : Std.Antisymm fun a b : Nat × Rule => a.1 < b.1 :=
    ⟨fun _ _ before after => absurd after (Nat.lt_asymm before)⟩
  apply t.expand_ascends.eq_of_mem_iff t.scanned_ascends
  rintro ⟨c, rule⟩
  rw [mem_expand_iff, mem_scanned_iff]
  exact ⟨fun found => ⟨lt_count_of_lookup found, found⟩, And.right⟩

/-- The expansion of a table is what lookups find, each code point once and in ascending order: the
list that a pass over the whole code point space collects. -/
theorem expand_exact (t : Table) :
    (∀ c rule, (c, rule) ∈ t.expand ↔ t.lookup c = some rule) ∧
      (t.expand.map Prod.fst).Nodup ∧ (t.expand.Pairwise fun a b => a.1 < b.1) ∧
      t.expand = (List.range CodePoint.count).filterMap fun c =>
        (t.lookup c).map fun rule => (c, rule) := by
  refine ⟨t.mem_expand_iff, ?_, t.expand_ascends, t.expand_eq_scanned⟩
  apply List.pairwise_map.mpr
  exact t.expand_ascends.imp Nat.ne_of_lt

end Table

end LexicalRuns
