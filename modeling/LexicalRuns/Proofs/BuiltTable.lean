import LexicalRuns.Build
import LexicalRuns.Proofs.BinaryArtifact
import LexicalRuns.Proofs.CanonicalEncoding
import LexicalRuns.Proofs.Overrides

/-! Built tables. Building never fails, with or without verification, and a table that has been
written and read again says of every code point what the database and the overrides say. -/
namespace LexicalRuns

theorem Encodes.length_lt {classify : Nat → Option Rule} {runs : List Run}
    (encodes : Encodes classify CodePoint.count runs) : runs.length < UInt32.size := by
  have few := encodes.ordered.length_le (Nat.zero_le CodePoint.count)
    fun r member => ⟨Nat.zero_le r.start, encodes.within r member⟩
  rw [Nat.zero_add] at few
  exact Nat.lt_of_le_of_lt few (by decide)

namespace Database

/-- Verification or not, the result is the same if it finds nothing. -/
theorem build_eq_ok {db patched : Database} {summary : Encoding.Summary}
    (applied : db.applyOverrides = .ok patched)
    (encoded : Encoding.encode patched.classify = .ok summary)
    (accepted : verify summary.runs patched.classify = .ok ()) (verified : Bool) :
    db.build verified = .ok ⟨patched, summary⟩ := by
  unfold build
  simp only [applied, encoded, accepted, ite_self]

/-- Verification finds nothing in what has just been encoded. -/
theorem exists_build (db : Database) :
    ∃ built : Build, (∀ verified, db.build verified = .ok built) ∧
      db.applyOverrides = .ok built.database ∧
      Encodes db.lexicalRule CodePoint.count built.summary.runs := by
  obtain ⟨patched, applied, classified⟩ := db.exists_applyOverrides
  obtain ⟨runs, encoded, encodes⟩ := Encoding.exists_encode patched.classify
  have accepted := ((encodes_count_iff patched.classify runs).mp encodes).1
  refine ⟨⟨patched, .ofRuns runs⟩, build_eq_ok applied encoded accepted, applied, ?_⟩
  exact encodes.congr fun c below => classified c (Nat.le_of_lt_succ below)

/-- From a database to bytes, and from the bytes to the rules that code points should get. -/
theorem lookup_build (db : Database) :
    ∃ (built : Build) (bytes : List UInt8) (runs : List Run) (t : Table),
      db.build true = .ok built ∧ db.build false = .ok built ∧
      db.applyOverrides = .ok built.database ∧
      Artifact.Binary.write built.summary.runs = .ok bytes ∧
      Artifact.Binary.read bytes = .ok runs ∧ Table.ofRuns runs = .ok t ∧
      ∀ c, t.lookup c = db.lexicalRule c := by
  obtain ⟨built, builds, applied, encodes⟩ := db.exists_build
  obtain ⟨bytes, written, read⟩ := Artifact.Binary.exists_write encodes.length_lt
  obtain ⟨t, made, looked⟩ := Table.exists_ofRuns encodes.ordered
  refine ⟨built, bytes, built.summary.runs, t, builds true, builds false, applied, written, read,
    made, ?_⟩
  intro c
  rw [looked]
  by_cases inside : c ≤ CodePoint.last
  · exact encodes.covers c (Nat.lt_succ_of_le inside)
  · have beyond := Nat.lt_of_not_le inside
    rw [ruleAt_eq_none_of_last_lt _ beyond, lexicalRule, if_pos beyond]

end Database

end LexicalRuns
