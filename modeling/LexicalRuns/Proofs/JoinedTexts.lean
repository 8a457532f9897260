import LexicalRuns.Proofs.CharacterData
import LexicalRuns.Proofs.EncodedText
import LexicalRuns.Proofs.LineSteps

/-! Texts one after the other. A text that has been read leaves a database and a number of lines, and
nothing else: every step over the lines behind it does what it would do at the beginning, in a database
that lies over the first one and with the lines counted on. So the databases are laid one over the
other, and a fault of the second text is found again at its place in the whole. -/
namespace LexicalRuns

def LineFault.renumber (f : Nat → Nat) : LineFault → LineFault
  | .neverClosed block opened => .neverClosed block (f opened)
  | .insideRange block opened => .insideRange block (f opened)
  | fault => fault

/-- Only faults of lines have numbers. -/
def Fault.renumber (f : Nat → Nat) : Fault → Fault
  | .line number cause => .line (f number) (cause.renumber f)
  | fault => fault

namespace UnicodeData

theorem renumber_of_inherent {f : Nat → Nat} {cause : LineFault} (inherent : cause.Inherent) :
    cause.renumber f = cause := by
  cases cause with
  | neverClosed | insideRange => cases inherent
  | _ => rfl

theorem readLine_renumber (f : Nat → Nat) (number : Nat) (line : List UInt8) :
    readLine (f number) line = (readLine number line).mapError (·.renumber f) := by
  unfold readLine
  cases Text.decode? line with
  | none => rfl
  | some text =>
    simp only
    cases read : Entry.ofLine? text with
    | ok entry => rfl
    | error cause =>
      have same : cause.renumber f = cause := renumber_of_inherent (inherent_of_ofLine read)
      simp only [mapError_error, Fault.renumber, same]

/-! ### Databases one over the other -/

theorem union_insert (d db : Database) (c : Nat) (record : Record) :
    d ∪ db.insert c record = (d ∪ db).insert c record :=
  Std.ExtTreeMap.union_insert_right_eq_insert_union (p := ⟨c, record⟩)

theorem union_fill (d db : Database) (start count : Nat) (record : Nat → Record) :
    d ∪ db.fill start count record = (d ∪ db).fill start count record :=
  (List.foldl_hom (d ∪ ·) fun db c => (union_insert d db c (record c)).symm).symm

namespace Progress

/-- What has been read, with another database below it and other numbers for the lines. -/
def after (d : Database) (f : Nat → Nat) (p : Progress) : Progress :=
  ⟨d ∪ p.database, p.opened.map fun r => { r with line := f r.line }⟩

/-- An entry is taken in alike, since only its place and the open range matter. -/
theorem add_after (p : Progress) (d : Database) (f : Nat → Nat) (number : Nat) (e : Entry) :
    (p.after d f).add (f number) e =
      ((p.add number e).mapError (·.renumber f)).map (·.after d f) := by
  obtain ⟨database, opened⟩ := p
  obtain ⟨c, naming, category⟩ := e
  cases opened with
  | none =>
    cases naming with
    | single name =>
      simp only [add, after, Option.map_none, ← union_insert]
      rfl
    | first block => rfl
    | last block => rfl
  | some r =>
    cases naming with
    | single name => rfl
    | first block => rfl
    | last block =>
      simp only [add, after, Option.map_some]
      split
      next agrees =>
        rw [← union_fill]
        rfl
      next differs => rfl

theorem addLine_after (p : Progress) (d : Database) (f : Nat → Nat) (number : Nat)
    (line : List UInt8) :
    (p.after d f).addLine (f number) line =
      ((p.addLine number line).mapError (·.renumber f)).map (·.after d f) := by
  simp only [addLine, readLine_renumber f]
  cases readLine number line with
  | error fault => rfl
  | ok entry =>
    cases entry with
    | none => rfl
    | some e =>
      simp only [mapError_ok, add_after]
      cases p.add number e <;> rfl

/-- All lines, by induction on how many there are. -/
theorem addLines_after (p : Progress) (d : Database) (k number : Nat) (lines : List (List UInt8)) :
    (p.after d (· + k)).addLines (number + k) lines =
      ((p.addLines number lines).mapError (·.renumber (· + k))).map (·.after d (· + k)) := by
  induction lines generalizing p number with
  | nil => rfl
  | cons line rest ih =>
    rw [addLines_cons, addLines_cons, addLine_after p d (· + k)]
    cases p.addLine number line with
    | error fault => rfl
    | ok q =>
      have next := ih q (number + 1)
      rwa [Nat.add_right_comm] at next

theorem finish_after (p : Progress) (d : Database) (f : Nat → Nat) :
    (p.after d f).finish = (p.finish.mapError (·.renumber f)).map (d ∪ ·) := by
  obtain ⟨database, opened⟩ := p
  cases opened <;> rfl

theorem addLines_of_read {text : List UInt8} {db : Database} (accepted : read text = .ok db) :
    start.addLines 1 (Text.lines text) = .ok ⟨db, none⟩ := by
  unfold read at accepted
  cases added : start.addLines 1 (Text.lines text) with
  | error fault =>
    rw [added] at accepted
    cases accepted
  | ok p =>
    rw [added] at accepted
    obtain ⟨database, opened⟩ := p
    cases opened with
    | none =>
      cases accepted
      rfl
    | some r => cases accepted

end Progress

/-- Reading two texts together is reading the second one, over the database of the first and with
its lines counted on. -/
theorem read_append {a : List UInt8} {da : Database} (ended : Text.Ended a)
    (first : read a = .ok da) (b : List UInt8) :
    read (a ++ b) =
      ((read b).mapError (·.renumber (· + (Text.lines a).length))).map (da ∪ ·) := by
  have taken := Progress.addLines_of_read first
  have begin : Progress.start.after da (· + (Text.lines a).length) = ⟨da, none⟩ := by
    have empty : da ∪ ∅ = da := by
      apply Std.ExtTreeMap.ext_getElem?
      intro c
      rw [Std.ExtTreeMap.getElem?_union, Std.ExtTreeMap.getElem?_empty, Option.none_or]
    simp only [Progress.after, Progress.start, empty, Option.map_none]
  have moved := Progress.addLines_after .start da (Text.lines a).length 1 (Text.lines b)
  rw [read, Text.lines_append ended, Progress.addLines_append, taken]
  simp only [Except.bind]
  rw [← begin, moved, read]
  cases Progress.start.addLines 1 (Text.lines b) with
  | error fault => rfl
  | ok p => exact Progress.finish_after p da (· + (Text.lines a).length)

theorem union_comm {da db : Database} (apart : ∀ c : Nat, da[c]? = none ∨ db[c]? = none) :
    da ∪ db = db ∪ da := by
  apply Std.ExtTreeMap.ext_getElem?
  intro c
  rw [Std.ExtTreeMap.getElem?_union, Std.ExtTreeMap.getElem?_union]
  rcases apart c with missing | missing
  · rw [missing, Option.or_none, Option.none_or]
  · rw [missing, Option.or_none, Option.none_or]

/-- A text behind one that has been read overwrites its database, or has the fault that it has alone,
with every line number increased by the lines before. If no code point is in both, the order of the
texts makes no difference. -/
theorem read_joined {a : List UInt8} {da : Database} (ended : Text.Ended a)
    (first : read a = .ok da) (b : List UInt8) :
    (∀ db, read b = .ok db →
      ∃ d, read (a ++ b) = .ok d ∧ ∀ c : Nat, d[c]? = db[c]?.or da[c]?) ∧
    (∀ fault, read b = .error fault →
      read (a ++ b) = .error (fault.renumber (· + (Text.lines a).length))) ∧
    ∀ db, Text.Ended b → read b = .ok db → (∀ c : Nat, da[c]? = none ∨ db[c]? = none) →
      ∃ d, read (a ++ b) = .ok d ∧ read (b ++ a) = .ok d := by
  have joined := read_append ended first b
  refine ⟨fun db second => ?_, fun fault failed => ?_, fun db endedB second apart => ?_⟩
  · rw [second] at joined
    exact ⟨da ∪ db, joined, fun c => Std.ExtTreeMap.getElem?_union⟩
  · rw [failed] at joined
    exact joined
  · rw [second] at joined
    have exchanged := read_append endedB second a
    rw [first] at exchanged
    refine ⟨da ∪ db, joined, ?_⟩
    rw [union_comm apart]
    exact exchanged

def letter : String := "41;A;Lu\n# A\n"

def renamed : String := "42;B;Lu\n41;C;Ll"

def interrupted : String := "4E00;<B, First>;Lo\n42;B;Lu"

def otherLetter : String := "42;B;Lu\n"

/-- Behind the letter and its comment the later name counts, the range is opened on the third line
and interrupted on the fourth, bytes that are no text remain so, and the other letter may as well come
first. -/
theorem read_joined_letters :
    ∃ da, Text.Ended (Text.encode letter) ∧ read (Text.encode letter) = .ok da ∧
      (∃ db d, read (Text.encode renamed) = .ok db ∧
        read (Text.encode letter ++ Text.encode renamed) = .ok d ∧
        ∀ c : Nat, d[c]? = db[c]?.or da[c]?) ∧
      read (Text.encode letter ++ Text.encode interrupted) =
        .error (.line 4 (.insideRange "B" 3)) ∧
      read (Text.encode letter ++ [0xFF]) = .error (.file .notText) ∧
      ∃ d, read (Text.encode letter ++ Text.encode otherLetter) = .ok d ∧
        read (Text.encode otherLetter ++ Text.encode letter) = .ok d := by
  have ended : Text.Ended (Text.encode letter) := .inr rfl
  have otherEnded : Text.Ended (Text.encode otherLetter) := .inr rfl
  obtain ⟨da, first, one⟩ : ∃ da, read (Text.encode letter) = .ok da ∧
      da = (∅ : Database).insert 0x41 ⟨"A", .uppercaseLetter⟩ := ⟨_, rfl, rfl⟩
  obtain ⟨db, second⟩ : ∃ db, read (Text.encode renamed) = .ok db := ⟨_, rfl⟩
  obtain ⟨dc, third, other⟩ : ∃ dc, read (Text.encode otherLetter) = .ok dc ∧
      dc = (∅ : Database).insert 0x42 ⟨"B", .uppercaseLetter⟩ := ⟨_, rfl, rfl⟩
  have apart (c : Nat) : da[c]? = none ∨ dc[c]? = none := by
    subst one other
    simp only [Std.ExtTreeMap.getElem?_insert, Std.ExtTreeMap.getElem?_empty]
    by_cases isFirst : c = 0x41
    · subst isFirst
      exact .inr rfl
    · left
      simp [Ne.symm isFirst]
  obtain ⟨d, joined, records⟩ := (read_joined ended first _).1 db second
  exact ⟨da, ended, first, ⟨db, d, second, joined, records⟩,
    (read_joined ended first _).2.1 (.line 2 (.insideRange "B" 1)) rfl,
    (read_joined ended first [0xFF]).2.1 (.file .notText) rfl,
    (read_joined ended first _).2.2 dc otherEnded third apart⟩

end UnicodeData

end LexicalRuns
