import LexicalRuns.Artifact.Source
import LexicalRuns.Proofs.PackedRun
import LexicalRuns.Proofs.RecordNames

/-! The lines of source artifacts. As long as names stay within a line, the lines of the text are
those that were put together: each run has its own, and no other line looks like one of a run. -/
namespace LexicalRuns.Artifact.Source

open Text (InLine inLine_append)

/-! ### Within a line -/

theorem inLine_header : ∀ line ∈ header, InLine line := by decide

theorem inLine_opening (count : Nat) : InLine (opening count) := by
  unfold opening
  rw [inLine_append, inLine_append]
  exact ⟨⟨by decide, Text.inLine_toString count⟩, by decide⟩

theorem inLine_nameAt {db : Database} (names : db.InLine) (c : Nat) : InLine (nameAt db c) := by
  unfold nameAt
  split
  next => decide
  next record found => exact names c record found

/-- The comment holds a name, and with it all that could end the line. -/
theorem inLine_runLine_iff {db : Database} {r : Run} :
    InLine (runLine db r) ↔ InLine (nameAt db r.start) := by
  have word : InLine (Text.Hex.lower 8 r.pack.toNat) := Text.Hex.inLine_lower 8 r.pack.toNat
  have label : InLine (CodePoint.label r.start) :=
    inLine_append.mpr ⟨by decide, Text.Hex.inLine_upper 4 r.start⟩
  have length : InLine (toString r.length) := Text.inLine_toString r.length
  have rule : InLine r.rule.name := by cases r.rule <;> decide
  have fixed : InLine "    Cprun(0x" ∧ InLine "), // " ∧ InLine "+" ∧ InLine " " ∧ InLine " (" ∧
      InLine ")" := by decide
  unfold runLine
  simp only [inLine_append, word, label, length, rule, fixed, and_true, true_and]

theorem inLine_lines_iff {runs : List Run} {db : Database} :
    (∀ line ∈ lines runs db, InLine line) ↔ ∀ r ∈ runs, InLine (nameAt db r.start) := by
  have last : InLine closing := by decide
  unfold lines
  simp only [List.forall_mem_append, List.forall_mem_cons, List.forall_mem_map, inLine_runLine_iff]
  constructor
  · intro h
    exact h.1.2.2
  · intro names
    exact ⟨⟨inLine_header, inLine_opening _, names⟩, last, List.forall_mem_nil _⟩

theorem inLine_lines {db : Database} (names : db.InLine) (runs : List Run) :
    ∀ line ∈ lines runs db, InLine line :=
  inLine_lines_iff.mpr fun r _ => inLine_nameAt names r.start

theorem encode_render (runs : List Run) (db : Database) :
    Text.encode (render runs db) =
      ((lines runs db).map Text.encode).flatMap (· ++ [Text.lineFeed]) := by
  rw [render, Text.encode_join, List.flatMap_map, List.flatMap_map]
  simp only [Text.encode_append]
  rfl

theorem lines_render_of_inLine {runs : List Run} {db : Database}
    (plain : ∀ line ∈ lines runs db, InLine line) :
    Text.lines (Text.encode (render runs db)) = (lines runs db).map Text.encode := by
  rw [encode_render]
  apply Text.lines_flatMap
  exact List.forall_mem_map.mpr fun line member => Text.not_mem_encode_iff.mpr (plain line member)

theorem lines_render {db : Database} (names : db.InLine) (runs : List Run) :
    Text.lines (Text.encode (render runs db)) = (lines runs db).map Text.encode :=
  lines_render_of_inLine (inLine_lines names runs)

/-! ### Lines of runs -/

def recordStart : String := "    Cprun(0x"

/-- A line with eight digits for a word that unpacks to the run. -/
def ShowsRun (line : List UInt8) (r : Run) : Prop :=
  ∃ digits values word rest,
    line = Text.encode (recordStart ++ String.ofList digits ++ ")" ++ rest) ∧ digits.length = 8 ∧
    Text.Hex.HaveValues digits values ∧ Nat.ofDigits 16 values.reverse = word.toNat ∧
    Run.unpack word = .ok r

/-- The closing bracket ends the digits of the word. -/
theorem exists_runLine_eq (db : Database) (r : Run) :
    ∃ rest, runLine db r = recordStart ++ Text.Hex.lower 8 r.pack.toNat ++ ")" ++ rest := by
  have bracket : "), // " = ")" ++ ", // " := rfl
  unfold runLine
  rw [bracket]
  simp only [String.append_assoc]
  exact ⟨_, rfl⟩

theorem showsRun_runLine (db : Database) (r : Run) : ShowsRun (Text.encode (runLine db r)) r := by
  obtain ⟨digits, values, written, eight, reads, value⟩ := Text.Hex.exists_lower_eq r.pack.toNat_lt
  obtain ⟨rest, line⟩ := exists_runLine_eq db r
  exact ⟨digits, values, r.pack, rest, by rw [line, written], eight, reads, value, r.unpack_pack⟩

def isRecord (line : List UInt8) : Bool := (Text.encode recordStart).isPrefixOf line

theorem isRecord_runLine (db : Database) (r : Run) :
    isRecord (Text.encode (runLine db r)) = true := by
  obtain ⟨rest, line⟩ := exists_runLine_eq db r
  rw [isRecord, List.isPrefixOf_iff_prefix, line, String.append_assoc, String.append_assoc,
    Text.encode_append]
  exact List.prefix_append _ _

theorem isRecord_opening (count : Nat) : isRecord (Text.encode (opening count)) = false := by
  unfold opening
  rw [Text.encode_append, Text.encode_append]
  rfl

/-- Nothing but the runs gives lines that start so. -/
theorem filter_isRecord (runs : List Run) (db : Database) :
    ((lines runs db).map Text.encode).filter isRecord =
      runs.map fun r => Text.encode (runLine db r) := by
  have header : (header.map Text.encode).filter isRecord = [] := by decide
  have closing : isRecord (Text.encode closing) = false := by decide
  have records : ∀ line ∈ runs.map fun r => Text.encode (runLine db r), isRecord line = true :=
    List.forall_mem_map.mpr fun r _ => isRecord_runLine db r
  rw [lines, List.map_append, List.map_append, List.filter_append, List.filter_append, header,
    List.map_cons, List.filter_cons, isRecord_opening, List.map_map, List.map_singleton,
    List.filter_singleton, closing]
  exact (List.append_nil _).trans (List.filter_eq_self.mpr records)

/-- Read line by line, the text of a source artifact gives the runs back: their lines stand between
the line that opens the array, with their number, and the last one, and nothing in another line can
be taken for a run. -/
theorem render_shows {bytes : List UInt8} {db rendered : Database}
    (accepted : UnicodeData.read bytes = .ok db)
    (written : rendered = db ∨ db.applyOverrides = .ok rendered) (runs : List Run) :
    ∃ before records,
      Text.lines (Text.encode (render runs rendered)) =
        before ++ Text.encode
            ("pub static CODE_POINT_RUNS: [Cprun; " ++ toString runs.length ++ "] = [") ::
          records ++ [Text.encode "];"] ∧
      (Text.lines (Text.encode (render runs rendered))).filter isRecord = records ∧
      List.Forall₂ ShowsRun records runs := by
  have names : rendered.InLine := by
    rcases written with rfl | applied
    · exact Database.inLine_of_read accepted
    · exact (Database.inLine_of_read accepted).applyOverrides applied
  refine ⟨header.map Text.encode, runs.map fun r => Text.encode (runLine rendered r), ?_, ?_, ?_⟩
  · rw [lines_render names, lines, List.map_append, List.map_append, List.map_cons, List.map_map]
    rfl
  · rw [lines_render names, filter_isRecord]
  · rw [List.forall₂_map_left_iff, List.forall₂_same]
    exact fun r _ => showsRun_runLine rendered r

/-- A name that looks like the start of a record makes no other record. -/
theorem render_shows_disguised :
    ∃ db patched line, UnicodeData.read (Text.encode "41;x    Cprun(0x;Lu") = .ok db ∧
      db.applyOverrides = .ok patched ∧
      (Text.lines (Text.encode (render [⟨0x41, 1, .identifierStart, by decide, by decide, by decide⟩]
        patched))).filter isRecord = [line] ∧
      ShowsRun line ⟨0x41, 1, .identifierStart, by decide, by decide, by decide⟩ := by
  have accepted : UnicodeData.read (Text.encode "41;x    Cprun(0x;Lu") =
      .ok ((∅ : Database).insert 0x41 ⟨"x    Cprun(0x", .uppercaseLetter⟩) := rfl
  have applied := Database.applyOverrides_eq_ok
    ((∅ : Database).insert 0x41 ⟨"x    Cprun(0x", .uppercaseLetter⟩)
  obtain ⟨_, _, _, same, shown⟩ := render_shows accepted (.inr applied)
    [⟨0x41, 1, .identifierStart, by decide, by decide, by decide⟩]
  obtain ⟨line, others, first, none, rfl⟩ := List.forall₂_cons_right_iff.mp shown
  cases none
  exact ⟨_, _, line, accepted, applied, same, first⟩

end LexicalRuns.Artifact.Source
