import LexicalRuns.Proofs.BuiltTable

/-! What of a database reaches its binary artifact: of each code point that is not overridden the
rule of its category, and nothing else. The canonical runs show every such rule, so nothing that
counts is lost, and no other part of a database has a place in them. -/
namespace LexicalRuns.Database

def categoryRule (db : Database) (c : Nat) : Option Rule :=
  (db[c]?).bind fun record => record.category.rule?

/-- Code points for which the category in the database counts. -/
def Relevant (c : Nat) : Prop := c ≤ CodePoint.last ∧ ∀ o ∈ Override.all, o.codePoint ≠ c

def artifact (db : Database) (verified : Bool) : Except Fault (List UInt8) :=
  match db.build verified with
  | .error fault => .error fault
  | .ok built => Artifact.Binary.write built.summary.runs

theorem lexicalRule_of_relevant (db : Database) {c : Nat} (relevant : Relevant c) :
    db.lexicalRule c = db.categoryRule c := by
  have free : Override.all.find? (·.codePoint = c) = none := by
    rw [List.find?_eq_none]
    intro o member here
    exact relevant.2 o member (of_decide_eq_true here)
  simp only [lexicalRule, categoryRule, if_neg (Nat.not_lt.mpr relevant.1), free]

/-- Where the category does not count, the rule is the same for all databases. -/
theorem lexicalRule_of_not_relevant (d e : Database) {c : Nat} (ignored : ¬Relevant c) :
    d.lexicalRule c = e.lexicalRule c := by
  by_cases inside : c ≤ CodePoint.last
  · have overridden : ∃ o ∈ Override.all, o.codePoint = c := by
      simpa [Relevant, inside] using ignored
    obtain ⟨o, member, here⟩ := overridden
    have found : (Override.all.find? (·.codePoint = c)).isSome :=
      List.find?_isSome.mpr ⟨o, member, decide_eq_true here⟩
    obtain ⟨first, found⟩ := Option.isSome_iff_exists.mp found
    simp only [lexicalRule, found]
  · simp only [lexicalRule, if_pos (Nat.lt_of_not_le inside)]

theorem lexicalRule_eq_iff (d e : Database) :
    (∀ c, d.lexicalRule c = e.lexicalRule c) ↔
      ∀ c, Relevant c → d.categoryRule c = e.categoryRule c := by
  constructor
  · intro same c relevant
    rw [← lexicalRule_of_relevant d relevant, ← lexicalRule_of_relevant e relevant, same c]
  · intro same c
    by_cases relevant : Relevant c
    · rw [lexicalRule_of_relevant d relevant, lexicalRule_of_relevant e relevant, same c relevant]
    · exact lexicalRule_of_not_relevant d e relevant

theorem exists_artifact (db : Database) :
    ∃ runs, Encodes db.lexicalRule CodePoint.count runs ∧
      ∀ verified, db.artifact verified = .ok (Artifact.Binary.artifact runs) := by
  obtain ⟨built, builds, _, encodes⟩ := db.exists_build
  refine ⟨built.summary.runs, encodes, fun verified => ?_⟩
  unfold artifact
  rw [builds verified]
  exact Artifact.Binary.write_eq_ok encodes.length_lt

/-- Two databases have the same artifact if and only if they agree on the rule of every code point
that counts; in particular if they agree on the categories there. -/
theorem artifact_eq_iff (d e : Database) (verifiedD verifiedE : Bool) :
    ∃ first second, d.artifact verifiedD = .ok first ∧ e.artifact verifiedE = .ok second ∧
      (first = second ↔ ∀ c, Relevant c → d.categoryRule c = e.categoryRule c) ∧
      ((∀ c, Relevant c → (d[c]?).map Record.category = (e[c]?).map Record.category) →
        first = second) := by
  obtain ⟨xs, encodesD, artifactD⟩ := d.exists_artifact
  obtain ⟨ys, encodesE, artifactE⟩ := e.exists_artifact
  have decided : Artifact.Binary.artifact xs = Artifact.Binary.artifact ys ↔
      ∀ c, Relevant c → d.categoryRule c = e.categoryRule c := by
    rw [← lexicalRule_eq_iff]
    constructor
    · intro same c
      obtain rfl := Artifact.Binary.artifact_injective encodesD.length_lt encodesE.length_lt same
      by_cases inside : c ≤ CodePoint.last
      · have below : c < CodePoint.count := Nat.lt_succ_of_le inside
        rw [← encodesD.covers c below, ← encodesE.covers c below]
      · exact lexicalRule_of_not_relevant d e fun relevant => inside relevant.1
    · intro same
      rw [(encodesD.congr fun c _ => same c).unique encodesE]
  refine ⟨_, _, artifactD verifiedD, artifactE verifiedE, decided, fun categories => ?_⟩
  refine decided.mpr fun c relevant => ?_
  have bound (db : Database) :
      db.categoryRule c = ((db[c]?).map Record.category).bind Category.rule? := by
    rw [categoryRule, Option.bind_map]
    rfl
  rw [bound d, bound e, categories c relevant]

def letter : Database := (∅ : Database).insert 0x41 ⟨"LATIN CAPITAL LETTER A", .uppercaseLetter⟩

/-- The same letter by another name, the dollar sign, and an entry beyond the last code point. -/
def renamed : Database :=
  (((∅ : Database).insert 0x41 ⟨"A", .uppercaseLetter⟩).insert 0x24
    ⟨"DOLLAR SIGN", .currencySymbol⟩).insert 0x110000 ⟨"NOTHING", .lowercaseLetter⟩

theorem artifact_eq_iff_renamed :
    letter ≠ renamed ∧
      (∀ c, Relevant c → (letter[c]?).map Record.category = (renamed[c]?).map Record.category) ∧
      ∃ first second, letter.artifact true = .ok first ∧ renamed.artifact true = .ok second ∧
        first = second := by
  have differ : letter ≠ renamed := by
    intro same
    have entry := congrArg (·[0x24]?) same
    simp [letter, renamed] at entry
  have categories (c : Nat) (relevant : Relevant c) :
      (letter[c]?).map Record.category = (renamed[c]?).map Record.category := by
    have inside : c ≠ 0x110000 := by
      rintro rfl
      exact absurd relevant.1 (by decide)
    have free : c ≠ 0x24 := (relevant.2 (.identifierStart 0x24) (by decide)).symm
    by_cases here : c = 0x41
    · subst here
      simp only [letter, renamed, Std.ExtTreeMap.getElem?_insert]
      rfl
    · simp [letter, renamed, Ne.symm inside, Ne.symm free, Ne.symm here]
  obtain ⟨first, second, made, other, _, same⟩ := artifact_eq_iff letter renamed true true
  exact ⟨differ, categories, first, second, made, other, same categories⟩

end LexicalRuns.Database
