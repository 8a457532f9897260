import LexicalRuns.Proofs.SourceLines

/-! Comments in source artifacts. The name of a record stands behind two slashes, so that it changes
nothing but a comment as long as it stays in that line. A line feed in it ends the comment, and what
comes after is a line of code. -/
namespace LexicalRuns

namespace Text

def slash : UInt8 := 47

/-- The line up to the first two slashes. -/
def uncommented : List UInt8 → List UInt8
  | [] => []
  | b :: rest => if b = slash ∧ rest.head? = some slash then [] else b :: uncommented rest

/-- What stands behind two slashes does not matter, whether they are the first or not. -/
theorem uncommented_comment (code x y : List UInt8) :
    uncommented (code ++ slash :: slash :: x) = uncommented (code ++ slash :: slash :: y) := by
  induction code with
  | nil => rfl
  | cons b code ih =>
    have next : (code ++ slash :: slash :: x).head? = (code ++ slash :: slash :: y).head? := by
      cases code <;> rfl
    simp only [List.cons_append, uncommented, next, ih]

theorem count_lineFeed_flatMap (texts : List (List UInt8)) :
    (texts.flatMap (· ++ [lineFeed])).count lineFeed =
      texts.length + (texts.map (List.count lineFeed)).sum := by
  induction texts with
  | nil => rfl
  | cons text texts ih =>
    rw [List.flatMap_cons, List.count_append, ih, List.count_append, List.count_singleton_self,
      List.length_cons, List.map_cons, List.sum_cons]
    omega

theorem Ended.length_lines {bytes : List UInt8} (ended : Ended bytes) :
    (lines bytes).length = bytes.count lineFeed := by
  obtain ⟨texts, plain, rfl⟩ := ended.exists_lines
  have none : ∀ n ∈ texts.map (List.count lineFeed), n = 0 :=
    List.forall_mem_map.mpr fun text member => List.count_eq_zero.mpr (plain text member)
  rw [lines_flatMap texts plain, count_lineFeed_flatMap,
    List.sum_eq_zero_iff_forall_eq_nat.mpr none, Nat.add_zero]

theorem ended_flatMap (texts : List (List UInt8)) : Ended (texts.flatMap (· ++ [lineFeed])) := by
  rcases texts.eq_nil_or_concat with rfl | ⟨before, last, rfl⟩
  · exact .inl rfl
  · refine .inr ?_
    rw [List.concat_eq_append, List.flatMap_append, List.flatMap_singleton, ← List.append_assoc,
      List.getLast?_concat]

/-- A line feed inside of a text makes more lines than there are texts. -/
theorem length_lines_flatMap_iff (texts : List (List UInt8)) :
    (lines (texts.flatMap (· ++ [lineFeed]))).length = texts.length ↔
      ∀ text ∈ texts, lineFeed ∉ text := by
  rw [(ended_flatMap texts).length_lines, count_lineFeed_flatMap, Nat.add_eq_left,
    List.sum_eq_zero_iff_forall_eq_nat, List.forall_mem_map]
  simp only [List.count_eq_zero]

end Text

namespace Artifact.Source

open Text (InLine)

/-- The lines of a source artifact without their comments. -/
def code (runs : List Run) (db : Database) : List (List UInt8) :=
  (Text.lines (Text.encode (render runs db))).map Text.uncommented

def NamesInLine (runs : List Run) (db : Database) : Prop :=
  ∀ r ∈ runs, InLine (nameAt db r.start)

instance (runs : List Run) (db : Database) : Decidable (NamesInLine runs db) :=
  inferInstanceAs (Decidable (∀ r ∈ runs, InLine (nameAt db r.start)))

theorem exists_runLine_comment (r : Run) :
    ∃ code : String, ∀ db, ∃ comment, runLine db r = code ++ "//" ++ comment := by
  refine ⟨recordStart ++ Text.Hex.lower 8 r.pack.toNat ++ "), ", fun db => ?_⟩
  have bracket : "), // " = "), " ++ "//" ++ " " := rfl
  unfold runLine
  rw [bracket]
  simp only [String.append_assoc]
  exact ⟨_, rfl⟩

theorem uncommented_runLine (d e : Database) (r : Run) :
    Text.uncommented (Text.encode (runLine d r)) =
      Text.uncommented (Text.encode (runLine e r)) := by
  obtain ⟨code, shape⟩ := exists_runLine_comment r
  obtain ⟨x, lineD⟩ := shape d
  obtain ⟨y, lineE⟩ := shape e
  have slashes : Text.encode "//" = [Text.slash, Text.slash] := rfl
  rw [lineD, lineE]
  simp only [Text.encode_append, slashes, List.append_assoc]
  exact Text.uncommented_comment (Text.encode code) (Text.encode x) (Text.encode y)

theorem length_lines (runs : List Run) (d e : Database) :
    (lines runs d).length = (lines runs e).length := by
  simp [lines]

theorem length_code_iff (runs : List Run) (db : Database) :
    (code runs db).length = (lines runs db).length ↔ NamesInLine runs db := by
  have encoded : ((lines runs db).map Text.encode).length = (lines runs db).length :=
    List.length_map _
  rw [code, List.length_map, encode_render, ← encoded, Text.length_lines_flatMap_iff,
    List.forall_mem_map]
  simp only [Text.not_mem_encode_iff]
  exact inLine_lines_iff

theorem code_of_namesInLine {runs : List Run} {db : Database} (names : NamesInLine runs db) :
    code runs db = ((lines runs db).map Text.encode).map Text.uncommented := by
  rw [code, lines_render_of_inLine (inLine_lines_iff.mpr names)]

/-- With names that stay in their lines the code is the same for every database. -/
theorem code_eq {runs : List Run} {d e : Database} (names : NamesInLine runs d)
    (others : NamesInLine runs e) : code runs d = code runs e := by
  have records : ((runs.map (runLine d)).map Text.encode).map Text.uncommented =
      ((runs.map (runLine e)).map Text.encode).map Text.uncommented := by
    simp only [List.map_map]
    exact List.map_congr_left fun r _ => uncommented_runLine d e r
  rw [code_of_namesInLine names, code_of_namesInLine others]
  simp only [lines, List.map_append, List.map_cons, records]

/-- What the loader accepts can be rendered without care: names come from lines. -/
theorem code_eq_of_read {x y : List UInt8} {d e : Database} (first : UnicodeData.read x = .ok d)
    (second : UnicodeData.read y = .ok e) (runs : List Run) : code runs d = code runs e :=
  code_eq (fun r _ => inLine_nameAt (Database.inLine_of_read first) r.start)
    (fun r _ => inLine_nameAt (Database.inLine_of_read second) r.start)

/-- A name that breaks its line shows in the number of lines. -/
theorem namesInLine_of_length_eq {runs : List Run} {d e : Database} (names : NamesInLine runs d)
    (same : (code runs e).length = (code runs d).length) : NamesInLine runs e := by
  apply (length_code_iff runs e).mp
  calc (code runs e).length
    _ = (code runs d).length := same
    _ = (lines runs d).length := (length_code_iff runs d).mpr names
    _ = (lines runs e).length := length_lines runs d e

/-- Against a database whose names stay in their lines, another one gives the same code if its
names do so as well, and otherwise not even the same number of lines. -/
theorem code_agrees {runs : List Run} {d : Database} (names : NamesInLine runs d) (e : Database) :
    (NamesInLine runs e → code runs e = code runs d) ∧
    ((code runs e).length = (code runs d).length → NamesInLine runs e) :=
  ⟨fun others => code_eq others names, namesInLine_of_length_eq names⟩

def sevenLetters : Run := ⟨0x41, 7, .identifierStart, by decide, by decide, by decide⟩

/-- Slashes, brackets and another record in a name are nothing but a comment. -/
theorem code_agrees_disguised :
    code [sevenLetters] ((∅ : Database).insert 0x41 ⟨"]; // */ Cprun(0x0),", .uppercaseLetter⟩) =
      code [sevenLetters] ∅ :=
  (code_agrees (by decide) _).1 (by decide)

/-- A name with a line feed adds a line to the code. -/
theorem code_broken_line : ¬ ∀ (runs : List Run) (d e : Database), code runs d = code runs e := by
  intro same
  have plain : NamesInLine [sevenLetters] ∅ := by decide
  have broken : ¬ NamesInLine [sevenLetters]
      ((∅ : Database).insert 0x41 ⟨"A\nB", .uppercaseLetter⟩) := by decide
  exact broken (namesInLine_of_length_eq plain (congrArg List.length (same _ _ _)))

end Artifact.Source

end LexicalRuns
