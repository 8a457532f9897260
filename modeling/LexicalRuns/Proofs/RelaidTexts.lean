import LexicalRuns.Proofs.FirstFault
import LexicalRuns.Proofs.JoinedTexts
import LexicalRuns.Proofs.RecordNames

/-! Texts laid out anew. White space around lines, the way in which lines end, blank lines and comments
say nothing: a text that differs from another one in these has the same database, or the same fault
with the numbers that the lines have in it. -/
namespace LexicalRuns

namespace Text

def Blank (text : String) : Prop := text.toList ⊆ whiteSpace

instance (text : String) : Decidable (Blank text) :=
  inferInstanceAs (Decidable (text.toList ⊆ whiteSpace))

/-- White space only, or a number sign as the first character that is none. -/
def Idle (line : String) : Prop :=
  Blank line ∨ ∃ before rest, Blank before ∧ line = before ++ "#" ++ rest

def Padded (line padded : String) : Prop :=
  ∃ before after, Blank before ∧ Blank after ∧ padded = before ++ line ++ after

/-- The text has these lines. Each ends in a line feed that may have a carriage return in front of
it, and the last one may also end with the text. -/
inductive HasLines : String → List String → Prop where
  | empty : HasLines "" []
  | unended (line : String) (plain : InLine line) : HasLines line [line]
  | ended (line ending : String) (plain : InLine line) (ends : ending = "\n" ∨ ending = "\r\n")
      {rest : String} {lines : List String} (later : HasLines rest lines) :
      HasLines (line ++ ending ++ rest) (line :: lines)

theorem exists_hasLines (text : String) : ∃ lines, HasLines text lines := by
  induction size : text.length using Nat.strong_induction_on generalizing text with
  | _ n ih =>
    by_cases inLine : InLine text
    · exact ⟨[text], .unended text inLine⟩
    · obtain ⟨line, rest, split, plain⟩ := List.eq_append_cons_of_mem (not_not.mp inLine)
      have whole : String.ofList line ++ "\n" ++ String.ofList rest = text := by
        apply String.toList_injective
        simp [split]
      have shorter : (String.ofList rest).length < n := by
        rw [← size, ← String.length_toList, ← String.length_toList, split, String.toList_ofList]
        simp only [List.length_append, List.length_cons]
        omega
      obtain ⟨lines, later⟩ := ih _ shorter (String.ofList rest) rfl
      refine ⟨String.ofList line :: lines, ?_⟩
      rw [← whole]
      exact .ended _ "\n" (inLine_ofList.mpr plain) (.inl rfl) later

theorem lines_of_not_mem {line : List UInt8} (plain : lineFeed ∉ line) :
    lines line = if line = [] then [] else [line] := by
  simp only [lines, List.splitOn_eq_singleton plain, List.getLast?_singleton, Option.some.injEq,
    List.dropLast_singleton]

theorem Padded.trim_eq {line padded : String} (same : Padded line padded) :
    trim padded.toList = trim line.toList := by
  obtain ⟨before, after, blankBefore, blankAfter, rfl⟩ := same
  rw [String.toList_append, String.toList_append, trim_append blankBefore blankAfter]

end Text

namespace UnicodeData

/-- Lines from number `n` on, and the same lines in another text from number `m` on, each of them at its
place and with more white space perhaps; what stands between them has nothing to say. -/
inductive Relaid (place : Nat → Nat) : Nat → Nat → List String → List String → Prop where
  | nil (n m : Nat) : Relaid place n m [] []
  | kept {n m : Nat} {line padded : String} {rest others : List String} (here : place n = m)
      (same : Text.Padded line padded) (later : Relaid place (n + 1) (m + 1) rest others) :
      Relaid place n m (line :: rest) (padded :: others)
  | added {n m : Nat} {line : String} {lines others : List String} (idle : Text.Idle line)
      (later : Relaid place n (m + 1) lines others) : Relaid place n m lines (line :: others)

theorem readLine_of_idle {line : String} (idle : Text.Idle line) (number : Nat) :
    readLine number (Text.encode line) = .ok none := by
  refine readLine_eq_ok_iff.mpr ⟨line, rfl, ?_⟩
  rcases idle with blank | ⟨before, rest, blank, rfl⟩
  · have gone := (Text.trims_trim []).padded blank (List.nil_subset _)
    rw [List.append_nil, List.append_nil] at gone
    exact .nothing gone (.inl rfl)
  · -- the number sign is no white space, so that it comes first when the rest is gone
    have comment := Text.trims_trim ('#' :: rest.toList)
    have whole := comment.padded blank (List.nil_subset _)
    have same : (before ++ "#" ++ rest).toList = before.toList ++ '#' :: rest.toList ++ [] := by
      simp
    rw [← same] at whole
    exact .nothing whole (.inr (comment.head?_eq (by decide)))

theorem readLine_padded {line padded : String} (same : Text.Padded line padded) (number : Nat) :
    readLine number (Text.encode padded) = readLine number (Text.encode line) := by
  simp only [readLine_encode, Entry.ofLine?, same.trim_eq]

/-- A line feed ends a line, and a carriage return in front of it is white space. -/
theorem exists_lines_eq_cons {line ending : String} (plain : Text.InLine line)
    (ends : ending = "\n" ∨ ending = "\r\n") (rest : List UInt8) :
    ∃ first, Text.lines (Text.encode line ++ Text.encode ending ++ rest) =
        first :: Text.lines rest ∧
      ∀ number, readLine number first = readLine number (Text.encode line) := by
  have plainBytes := Text.not_mem_encode_iff.mpr plain
  rcases ends with rfl | rfl
  · refine ⟨Text.encode line, ?_, fun _ => rfl⟩
    rw [List.append_assoc]
    exact Text.lines_append_lineFeed plainBytes rest
  · refine ⟨Text.encode line ++ [Text.carriageReturn], ?_, fun number => ?_⟩
    · have plainReturn : Text.lineFeed ∉ Text.encode line ++ [Text.carriageReturn] := by
        rw [List.mem_append, not_or]
        exact ⟨plainBytes, by decide⟩
      have found := Text.lines_append_lineFeed plainReturn rest
      rwa [List.append_assoc] at found ⊢
    · exact readLine_concat_carriageReturn number (Text.encode line)

theorem empty_union (db : Database) : ∅ ∪ db = db := by
  apply Std.ExtTreeMap.ext_getElem?
  intro c
  rw [Std.ExtTreeMap.getElem?_union, Std.ExtTreeMap.getElem?_empty, Option.or_none]

namespace Progress

/-- The lines as they are found in the bytes make no difference to those that the text has: how a line
ends is not read, and an empty line at the end is none. -/
theorem addLines_of_hasLines {text : String} {lines : List String} (has : Text.HasLines text lines)
    (p : Progress) (number : Nat) :
    p.addLines number (Text.lines (Text.encode text)) =
      p.addLines number (lines.map Text.encode) := by
  induction has generalizing p number with
  | empty => rfl
  | unended line plain =>
    rw [Text.lines_of_not_mem (Text.not_mem_encode_iff.mpr plain)]
    split
    next empty =>
      rw [List.map_singleton, empty]
      rfl
    next => rfl
  | @ended line ending plain ends rest lines later ih =>
    obtain ⟨first, found, same⟩ := exists_lines_eq_cons plain ends (Text.encode rest)
    rw [Text.encode_append, Text.encode_append, found, List.map_cons, addLines_cons, addLines_cons]
    simp only [addLine, same, ih]

/-- Lines that are kept take the same steps at their new places, and those that are added take none. -/
theorem addLines_relaid {place : Nat → Nat} {n m : Nat} {lines others : List String}
    (same : Relaid place n m lines others) (p : Progress) :
    (p.after ∅ place).addLines m (others.map Text.encode) =
      ((p.addLines n (lines.map Text.encode)).mapError (·.renumber place)).map
        (·.after ∅ place) := by
  induction same generalizing p with
  | nil => rfl
  | @kept n m line padded rest others here same later ih =>
    subst here
    rw [List.map_cons, List.map_cons, addLines_cons, addLines_cons]
    have step := addLine_after p ∅ place n (Text.encode line)
    have unpadded : (p.after ∅ place).addLine (place n) (Text.encode padded) =
        (p.after ∅ place).addLine (place n) (Text.encode line) := by
      simp only [addLine, readLine_padded same]
    rw [unpadded, step]
    cases p.addLine n (Text.encode line) with
    | error fault => rfl
    | ok q => exact ih q
  | @added n m line lines others idle later ih =>
    have nothing : (p.after ∅ place).addLine m (Text.encode line) = .ok (p.after ∅ place) :=
      addLine_eq_ok_iff.mpr (.inl ⟨readLine_of_idle idle m, rfl⟩)
    rw [List.map_cons, addLines_cons, nothing]
    exact ih p

end Progress

theorem read_of_hasLines {text : String} {lines : List String} (has : Text.HasLines text lines) :
    read (Text.encode text) =
      (Progress.start.addLines 1 (lines.map Text.encode)).bind Progress.finish := by
  rw [read, Progress.addLines_of_hasLines has]

/-- Only the numbers of lines tell the two texts apart. -/
theorem read_eq_of_relaid {text relaid : String} {lines others : List String} {place : Nat → Nat}
    (has : Text.HasLines text lines) (hasOthers : Text.HasLines relaid others)
    (same : Relaid place 1 1 lines others) :
    read (Text.encode relaid) = (read (Text.encode text)).mapError (·.renumber place) := by
  have begin : Progress.start.after ∅ place = .start := by
    simp only [Progress.after, Progress.start, empty_union, Option.map_none]
  have steps := Progress.addLines_relaid same .start
  rw [begin] at steps
  rw [read_of_hasLines has, read_of_hasLines hasOthers, steps]
  cases Progress.start.addLines 1 (lines.map Text.encode) with
  | error fault => rfl
  | ok p =>
    have finished := Progress.finish_after p ∅ place
    simp only [empty_union] at finished
    change (p.after ∅ place).finish = p.finish.mapError (·.renumber place)
    rw [finished]
    cases p.finish <;> rfl

theorem exists_line_of_read {text : String} {fault : Fault}
    (failed : read (Text.encode text) = .error fault) : ∃ n cause, fault = .line n cause := by
  obtain ⟨lines, has⟩ := Text.exists_hasLines text
  rw [read_of_hasLines has] at failed
  cases taken : Progress.start.addLines 1 (lines.map Text.encode) with
  | error other =>
    rw [taken] at failed
    cases failed
    obtain ⟨before, line, after, q, whole, _, stopped⟩ := Progress.addLines_eq_error_iff.mp taken
    rcases Progress.addLine_fault stopped with ⟨_, notText⟩ | ⟨cause, rfl, _⟩
    · have member : line ∈ lines.map Text.encode := by simp [whole]
      obtain ⟨decoded, _, rfl⟩ := List.mem_map.mp member
      rw [Text.decode?_encode] at notText
      cases notText
    · exact ⟨_, cause, rfl⟩
  | ok p =>
    rw [taken] at failed
    obtain ⟨database, opened⟩ := p
    cases opened with
    | none => cases failed
    | some r =>
      cases failed
      exact ⟨_, _, rfl⟩

/-- However a text is laid out, its database is the same, and so is its fault, with the number of each
line replaced by the one that the line has now. -/
theorem read_relaid (text : String) :
    (∃ lines, Text.HasLines text lines) ∧
    ∀ relaid lines others place, Text.HasLines text lines → Text.HasLines relaid others →
      Relaid place 1 1 lines others →
      (∀ db, read (Text.encode text) = .ok db → read (Text.encode relaid) = .ok db) ∧
      ∀ fault, read (Text.encode text) = .error fault →
        ∃ n cause, fault = .line n cause ∧
          read (Text.encode relaid) = .error (.line (place n) (cause.renumber place)) := by
  refine ⟨Text.exists_hasLines text, fun relaid lines others place has hasOthers same => ?_⟩
  have both := read_eq_of_relaid has hasOthers same
  refine ⟨fun db accepted => ?_, fun fault failed => ?_⟩
  · rw [both, accepted]
    rfl
  · obtain ⟨n, cause, rfl⟩ := exists_line_of_read failed
    rw [failed] at both
    exact ⟨n, cause, rfl, both⟩

def plainText : String := "41;A;Lu\n4E00;<B, First>;Lo\n42;C;Lu"

/-- The same three lines, each of them behind a line that says nothing. -/
def spacedText : String :=
  "# A\r\n \t41;A;Lu\r\n\n4E00;<B, First>;Lo \n  # inside\n\u300042;C;Lu\n"

/-- What was found on the third line is found on the sixth, and the range that was opened on the second
line is opened on the fourth; a letter between two blank lines is still that letter. -/
theorem read_relaid_doubled :
    read (Text.encode plainText) = .error (.line 3 (.insideRange "B" 2)) ∧
      read (Text.encode spacedText) = .error (.line 6 (.insideRange "B" 4)) ∧
      ∃ db, read (Text.encode "41;A;Lu\n") = .ok db ∧
        read (Text.encode "\r\n41;A;Lu \n\n") = .ok db := by
  have failed : read (Text.encode plainText) = .error (.line 3 (.insideRange "B" 2)) := rfl
  have has : Text.HasLines plainText ["41;A;Lu", "4E00;<B, First>;Lo", "42;C;Lu"] :=
    .ended "41;A;Lu" "\n" (by decide) (.inl rfl)
      (.ended "4E00;<B, First>;Lo" "\n" (by decide) (.inl rfl) (.unended "42;C;Lu" (by decide)))
  have hasOthers : Text.HasLines spacedText
      ["# A", " \t41;A;Lu", "", "4E00;<B, First>;Lo ", "  # inside", "\u300042;C;Lu"] :=
    .ended "# A" "\r\n" (by decide) (.inr rfl) (.ended " \t41;A;Lu" "\r\n" (by decide) (.inr rfl)
      (.ended "" "\n" (by decide) (.inl rfl) (.ended "4E00;<B, First>;Lo " "\n" (by decide) (.inl rfl)
        (.ended "  # inside" "\n" (by decide) (.inl rfl)
          (.ended "\u300042;C;Lu" "\n" (by decide) (.inl rfl) .empty)))))
  have same : Relaid (2 * ·) 1 1 ["41;A;Lu", "4E00;<B, First>;Lo", "42;C;Lu"]
      ["# A", " \t41;A;Lu", "", "4E00;<B, First>;Lo ", "  # inside", "\u300042;C;Lu"] := by
    refine .added (.inr ⟨"", " A", by decide, rfl⟩)
      (.kept rfl ⟨" \t", "", by decide, by decide, rfl⟩ ?_)
    refine .added (.inl (by decide)) (.kept rfl ⟨"", " ", by decide, by decide, rfl⟩ ?_)
    exact .added (.inr ⟨"  ", " inside", by decide, rfl⟩)
      (.kept rfl ⟨"\u3000", "", by decide, by decide, rfl⟩ (.nil 4 7))
  obtain ⟨n, cause, fault, moved⟩ := ((read_relaid _).2 _ _ _ _ has hasOthers same).2 _ failed
  cases fault
  obtain ⟨db, accepted⟩ : ∃ db, read (Text.encode "41;A;Lu\n") = .ok db := ⟨_, rfl⟩
  have letter : Text.HasLines "41;A;Lu\n" ["41;A;Lu"] :=
    .ended "41;A;Lu" "\n" (by decide) (.inl rfl) .empty
  have letterAlone : Text.HasLines "\r\n41;A;Lu \n\n" ["", "41;A;Lu ", ""] :=
    .ended "" "\r\n" (by decide) (.inr rfl) (.ended "41;A;Lu " "\n" (by decide) (.inl rfl)
      (.ended "" "\n" (by decide) (.inl rfl) .empty))
  have kept : Relaid (· + 1) 1 1 ["41;A;Lu"] ["", "41;A;Lu ", ""] :=
    .added (.inl (by decide)) (.kept rfl ⟨"", " ", by decide, by decide, rfl⟩
      (.added (.inl (by decide)) (.nil 2 4)))
  exact ⟨failed, moved, db, accepted, ((read_relaid _).2 _ _ _ _ letter letterAlone kept).1 db accepted⟩

end UnicodeData

end LexicalRuns
