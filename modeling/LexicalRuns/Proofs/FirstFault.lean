import LexicalRuns.Proofs.CharacterData
import LexicalRuns.Proofs.LineEnds
import LexicalRuns.Proofs.LineSteps

/-! The first fault. Of several faults in a text the one on the first line is reported: it is there
whatever comes behind that line, and without the line there is none, unless a range has been left open.
An open range is a fault only when the text is over, and it was opened by the last content line, since
every other content line would have been a fault or the end of the range. -/
namespace LexicalRuns.UnicodeData

/-- The first line that is no text, counted from one. -/
def FirstNotText (lines : List (List UInt8)) (n : Nat) : Prop :=
  ∃ before line after, lines = before ++ line :: after ∧ n = before.length + 1 ∧
    (∀ other ∈ before, Text.decode? other ≠ none) ∧ Text.decode? line = none

def LastContent (lines : List (List UInt8)) (n : Nat) (e : Entry) : Prop :=
  ∃ before line after, lines = before ++ Text.encode line :: after ∧ n = before.length + 1 ∧
    Says line (some e) ∧ ∀ other ∈ after, ∃ blank, other = Text.encode blank ∧ Says blank none

/-- The fault is that of a line: it stays if the text goes on in another way, and the lines before
are a text without a fault but for a range that has no end there. -/
structure StopsAt (text : List UInt8) (n : Nat) (fault : Fault) : Prop where
  positive : 0 < n
  inside : n ≤ (Text.lines text).length
  stays : ∀ other, Text.SameLines ((Text.lines other).take n) ((Text.lines text).take n) →
    read other = .error fault
  before : ∀ shorter, Text.SameLines (Text.lines shorter) ((Text.lines text).take (n - 1)) →
    (∃ db, read shorter = .ok db) ∨
      ∃ number block, read shorter = .error (.line number (.noLastEntry block))

/-- The ways in which reading a text fails. -/
inductive Located (text : List UInt8) : Fault → Prop where
  | onLine (n : Nat) (cause : LineFault) (other : ∀ block, cause ≠ .noLastEntry block)
      (stops : StopsAt text n (.line n cause)) : Located text (.line n cause)
  | notText (n : Nat) (first : FirstNotText (Text.lines text) n)
      (stops : StopsAt text n (.file .notText)) : Located text (.file .notText)
  | atEnd (n c : Nat) (block : String) (category : Category)
      (last : LastContent (Text.lines text) n ⟨c, .first block, category⟩) :
      Located text (.line n (.noLastEntry block))

namespace Progress

variable {p q : Progress} {number : Nat}

/-- Carriage returns at the ends of lines make no difference. -/
theorem addLines_bare (p : Progress) (number : Nat) (lines : List (List UInt8)) :
    p.addLines number (lines.map Text.bare) = p.addLines number lines := by
  induction lines generalizing p number with
  | nil => rfl
  | cons line rest ih =>
    rw [List.map_cons, addLines_cons, addLines_cons]
    simp only [addLine, readLine_bare, ih]

theorem addLines_eq_of_same {xs ys : List (List UInt8)} (same : Text.SameLines xs ys) :
    p.addLines number xs = p.addLines number ys := by
  rw [← addLines_bare p number xs, same, addLines_bare]

/-- Only the end of a text can miss the last entry of a range. -/
theorem add_ne_noLastEntry (p : Progress) (number : Nat) (e : Entry) (block : String) :
    p.add number e ≠ .error (.noLastEntry block) := by
  intro failed
  unfold add at failed
  split at failed
  next => cases failed
  next => cases failed
  next => cases failed
  next => split at failed <;> cases failed
  next => cases failed
  next => cases failed

theorem add_opened {e : Entry} (added : p.add number e = .ok q) {r : OpenRange}
    (opened : q.opened = some r) :
    e = ⟨r.start, .first r.block, r.category⟩ ∧ number = r.line := by
  obtain ⟨c, naming, category⟩ := e
  unfold add at added
  split at added
  next block naming _ =>
    cases added
    cases opened
    subst naming
    exact ⟨rfl, rfl⟩
  next => cases added
  next => cases added
  next =>
    split at added
    · cases added
      cases opened
    · cases added
  next _ none =>
    cases added
    rw [none] at opened
    cases opened
  next => cases added

theorem addLine_fault {line : List UInt8} {fault : Fault}
    (stopped : p.addLine number line = .error fault) :
    fault = .file .notText ∧ Text.decode? line = none ∨
      ∃ cause, fault = .line number cause ∧ ∀ block, cause ≠ .noLastEntry block := by
  rcases addLine_eq_error_iff.mp stopped with unread | ⟨e, cause, _, refused, rfl⟩
  · rcases readLine_fault unread with notText | ⟨cause, rfl, inherent⟩
    · exact .inl notText
    · refine .inr ⟨cause, rfl, ?_⟩
      rintro block rfl
      exact inherent
  · refine .inr ⟨cause, rfl, ?_⟩
    rintro block rfl
    exact add_ne_noLastEntry p number e block refused

theorem decode?_ne_none_of_addLines {lines : List (List UInt8)}
    (taken : p.addLines number lines = .ok q) : ∀ line ∈ lines, Text.decode? line ≠ none := by
  induction lines generalizing p number with
  | nil => exact nofun
  | cons line rest ih =>
    obtain ⟨next, step, later⟩ := addLines_cons_eq_ok_iff.mp taken
    refine List.forall_mem_cons.mpr ⟨fun notText => ?_, ih later⟩
    have failed : readLine number line = .error (.file .notText) := by
      simp only [readLine, notText]
    simp [addLine_eq_error_iff.mpr (.inl failed)] at step

/-- A range is left open by the last content line, by induction from the last line on: a blank line
leaves everything as it is, and any other line that is taken in opens a range or leaves none. -/
theorem lastContent_of_opened {lines : List (List UInt8)} (taken : start.addLines 1 lines = .ok p)
    {r : OpenRange} (opened : p.opened = some r) :
    LastContent lines r.line ⟨r.start, .first r.block, r.category⟩ := by
  induction lines using List.reverseRecOn generalizing p with
  | nil =>
    cases taken
    cases opened
  | append_singleton xs line ih =>
    obtain ⟨q, earlier, added⟩ := addLines_concat_eq_ok_iff.mp taken
    rcases addLine_eq_ok_iff.mp added with ⟨blank, rfl⟩ | ⟨e, content, entered⟩
    · obtain ⟨before, last, after, rfl, number, content, others⟩ := ih earlier opened
      refine ⟨before, last, after ++ [line], by simp, number, content, ?_⟩
      intro other member
      rcases List.mem_append.mp member with member | isLine
      · exact others other member
      · rw [List.mem_singleton.mp isLine]
        exact readLine_eq_ok_iff.mp blank
    · obtain ⟨rfl, number⟩ := add_opened entered opened
      obtain ⟨text, rfl, told⟩ := readLine_eq_ok_iff.mp content
      exact ⟨xs, text, [], rfl, by omega, told, nofun⟩

end Progress

section Faults

variable {text : List UInt8} {fault : Fault}

theorem read_eq_error_iff :
    read text = .error fault ↔
      Progress.start.addLines 1 (Text.lines text) = .error fault ∨
        ∃ p r, Progress.start.addLines 1 (Text.lines text) = .ok p ∧ p.opened = some r ∧
          fault = .line r.line (.noLastEntry r.block) := by
  unfold read
  cases taken : Progress.start.addLines 1 (Text.lines text) with
  | error other => simp [Except.bind]
  | ok p =>
    obtain ⟨database, opened⟩ := p
    cases opened with
    | none => simp [Except.bind, Progress.finish]
    | some r => simp [Except.bind, Progress.finish, eq_comm]

/-- Once a line has been refused, nothing behind it is looked at. -/
theorem stopsAt_of_addLine {before after : List (List UInt8)} {line : List UInt8} {q : Progress}
    (lines : Text.lines text = before ++ line :: after)
    (taken : Progress.start.addLines 1 before = .ok q)
    (stopped : q.addLine (1 + before.length) line = .error fault) :
    StopsAt text (before.length + 1) fault := by
  have failed : Progress.start.addLines 1 (before ++ [line]) = .error fault :=
    Progress.addLines_eq_error_iff.mpr ⟨before, line, [], q, rfl, taken, stopped⟩
  have upTo : (Text.lines text).take (before.length + 1) = before ++ [line] := by
    rw [lines, List.take_length_add_append, List.take_succ_cons, List.take_zero]
  refine ⟨Nat.succ_pos _, ?_, fun other same => ?_, fun shorter same => ?_⟩
  · rw [lines, List.length_append, List.length_cons]
    omega
  · rw [upTo] at same
    apply read_eq_error_iff.mpr
    left
    rw [← List.take_append_drop (before.length + 1) (Text.lines other), Progress.addLines_append,
      Progress.addLines_eq_of_same same, failed]
    rfl
  · have all : (Text.lines text).take (before.length + 1 - 1) = before := by
      rw [lines, Nat.add_sub_cancel, List.take_left]
    rw [all] at same
    have short : Progress.start.addLines 1 (Text.lines shorter) = .ok q := by
      rw [Progress.addLines_eq_of_same same, taken]
    rw [read, short]
    obtain ⟨database, opened⟩ := q
    cases opened with
    | none => exact .inl ⟨database, rfl⟩
    | some r => exact .inr ⟨r.line, r.block, rfl⟩

/-- A line that is refused decides the fault, and if there is none, the open range does. -/
theorem located_of_read (failed : read text = .error fault) : Located text fault := by
  rcases read_eq_error_iff.mp failed with onLine | ⟨p, r, taken, opened, rfl⟩
  · obtain ⟨before, line, after, q, lines, taken, stopped⟩ :=
      Progress.addLines_eq_error_iff.mp onLine
    have stops := stopsAt_of_addLine lines taken stopped
    rcases Progress.addLine_fault stopped with ⟨rfl, notText⟩ | ⟨cause, rfl, other⟩
    · have texts := Progress.decode?_ne_none_of_addLines taken
      exact .notText _ ⟨before, line, after, lines, rfl, texts, notText⟩ stops
    · rw [Nat.add_comm 1] at stops ⊢
      exact .onLine _ cause other stops
  · exact .atEnd r.line r.start r.block r.category (Progress.lastContent_of_opened taken opened)

end Faults

/-- A fault that is reported for a line is the fault of that line, a text that is not well-formed is
noticed at the first such line, and a missing last entry is reported for the last content line, which
is the first entry of the range. -/
theorem read_fault_located (text : List UInt8) :
    (∀ n cause, read text = .error (.line n cause) → (∀ block, cause ≠ .noLastEntry block) →
      StopsAt text n (.line n cause)) ∧
    (∀ cause, read text = .error (.file cause) →
      ∃ n, FirstNotText (Text.lines text) n ∧ StopsAt text n (.file cause)) ∧
    ∀ n block, read text = .error (.line n (.noLastEntry block)) →
      ∃ c category, LastContent (Text.lines text) n ⟨c, .first block, category⟩ := by
  refine ⟨fun n cause failed different => ?_, fun cause failed => ?_, fun n block failed => ?_⟩
  · cases located_of_read failed with
    | onLine _ _ _ stops => exact stops
    | atEnd _ _ block => exact absurd rfl (different block)
  · cases located_of_read failed with
    | notText n first stops => exact ⟨n, first, stops⟩
  · cases located_of_read failed with
    | onLine _ _ other => exact absurd rfl (other block)
    | atEnd _ c _ category last => exact ⟨c, category, last⟩

/-- A letter, and behind it an unknown category and a line without one. -/
def twoFaults : String := "41;A;Lu\n42;B;Xx\n43;C"

def notText : List UInt8 := Text.encode "41;A;Lu\n" ++ [0xFF, Text.lineFeed] ++ Text.encode "43;C"

def leftOpen : String := "41;A;Lu\n4E00;<B, First>;Lo\n# B"

/-- The unknown category is reported for every text that begins with these two lines, however they
are ended, and the first line alone is read; the other two texts have their faults on the second line
as well. -/
theorem read_fault_located_second_line :
    read (Text.encode twoFaults) = .error (.line 2 (.unknownCategory "Xx")) ∧
      read (Text.encode "41;A;Lu\r\n42;B;Xx\r\n") = .error (.line 2 (.unknownCategory "Xx")) ∧
      ((∃ db, read (Text.encode "41;A;Lu\n") = .ok db) ∨
        ∃ number block,
          read (Text.encode "41;A;Lu\n") = .error (.line number (.noLastEntry block))) ∧
      read notText = .error (.file .notText) ∧
      (∃ n, FirstNotText (Text.lines notText) n ∧ StopsAt notText n (.file .notText)) ∧
      read (Text.encode leftOpen) = .error (.line 2 (.noLastEntry "B")) ∧
      ∃ c category,
        LastContent (Text.lines (Text.encode leftOpen)) 2 ⟨c, .first "B", category⟩ := by
  have unknown : read (Text.encode twoFaults) = .error (.line 2 (.unknownCategory "Xx")) := rfl
  have unread : read notText = .error (.file .notText) := rfl
  have missing : read (Text.encode leftOpen) = .error (.line 2 (.noLastEntry "B")) := rfl
  have stops := (read_fault_located (Text.encode twoFaults)).1 2 _ unknown nofun
  exact ⟨unknown, stops.stays _ rfl, stops.before _ rfl, unread,
    (read_fault_located notText).2.1 .notText unread, missing,
    (read_fault_located (Text.encode leftOpen)).2.2 2 "B" missing⟩

end LexicalRuns.UnicodeData
