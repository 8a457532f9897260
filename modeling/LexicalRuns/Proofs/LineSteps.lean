import LexicalRuns.UnicodeData.Reader

/-! Reading as a sequence of steps, one for each line. What the lines before have left is all that a
step knows of them, so that the steps of a text are those of its first lines followed by those of the
others, and the first step that fails ends them. -/
namespace LexicalRuns

theorem mapError_ok {α ε ε' : Type} (f : ε → ε') (x : α) :
    (Except.ok x : Except ε α).mapError f = .ok x :=
  rfl

theorem mapError_error {α ε ε' : Type} (f : ε → ε') (e : ε) :
    (Except.error e : Except ε α).mapError f = .error (f e) :=
  rfl

/-- What a line has wrong by itself, whatever stands before it. -/
def LineFault.Inherent : LineFault → Prop
  | .tooFewFields _ | .badCodePoint _ _ | .outOfRange _ | .unknownCategory _ => True
  | _ => False

namespace UnicodeData

theorem inherent_of_ofFields {fields : List (List Char)} {cause : LineFault}
    (refused : Entry.ofFields fields = .error cause) : cause.Inherent := by
  unfold Entry.ofFields at refused
  split at refused
  next =>
    split at refused
    next => cases refused; trivial
    next =>
      split at refused
      next => cases refused; trivial
      next => split at refused <;> cases refused; trivial
  next => cases refused; trivial

theorem inherent_of_ofLine {line : String} {cause : LineFault}
    (refused : Entry.ofLine? line = .error cause) : cause.Inherent := by
  simp only [Entry.ofLine?] at refused
  split at refused
  next =>
    cases read : Entry.ofFields ((Text.trim line.toList).splitOn ';') with
    | error other =>
      rw [read] at refused
      cases refused
      exact inherent_of_ofFields read
    | ok e =>
      rw [read] at refused
      cases refused
  next => cases refused

/-- A line that cannot be read is no text, or has something wrong by itself. -/
theorem readLine_fault {number : Nat} {line : List UInt8} {fault : Fault}
    (failed : readLine number line = .error fault) :
    fault = .file .notText ∧ Text.decode? line = none ∨
      ∃ cause, fault = .line number cause ∧ cause.Inherent := by
  unfold readLine at failed
  split at failed
  next notText =>
    cases failed
    exact .inl ⟨rfl, notText⟩
  next text _ =>
    cases read : Entry.ofLine? text with
    | ok entry =>
      rw [read] at failed
      cases failed
    | error cause =>
      rw [read] at failed
      cases failed
      exact .inr ⟨cause, rfl, inherent_of_ofLine read⟩

namespace Progress

def addLine (p : Progress) (number : Nat) (line : List UInt8) : Except Fault Progress :=
  match readLine number line with
  | .error fault => .error fault
  | .ok none => .ok p
  | .ok (some e) => (p.add number e).mapError (.line number)

variable {p q : Progress} {number : Nat}

theorem addLines_cons (p : Progress) (number : Nat) (line : List UInt8)
    (rest : List (List UInt8)) :
    p.addLines number (line :: rest) =
      (p.addLine number line).bind fun q => q.addLines (number + 1) rest := by
  simp only [addLines, addLine]
  cases readLine number line with
  | error fault => rfl
  | ok entry =>
    cases entry with
    | none => rfl
    | some e =>
      simp only
      cases p.add number e <;> rfl

theorem addLines_append (p : Progress) (number : Nat) (xs ys : List (List UInt8)) :
    p.addLines number (xs ++ ys) =
      (p.addLines number xs).bind fun q => q.addLines (number + xs.length) ys := by
  induction xs generalizing p number with
  | nil => rfl
  | cons line rest ih =>
    rw [List.cons_append, addLines_cons, addLines_cons]
    cases p.addLine number line with
    | error fault => rfl
    | ok next =>
      have place : number + 1 + rest.length = number + (line :: rest).length := by
        rw [List.length_cons]
        omega
      rw [← place]
      exact ih next (number + 1)

/-- A blank line leaves everything as it is, another one shows an entry that is taken in. -/
theorem addLine_eq_ok_iff {line : List UInt8} :
    p.addLine number line = .ok q ↔
      readLine number line = .ok none ∧ p = q ∨
        ∃ e, readLine number line = .ok (some e) ∧ p.add number e = .ok q := by
  unfold addLine
  cases readLine number line with
  | error fault => simp
  | ok entry =>
    cases entry with
    | none => simp
    | some e =>
      simp only [Except.ok.injEq, Option.some.injEq, reduceCtorEq, false_and, false_or,
        exists_eq_left']
      cases p.add number e <;> simp [mapError_ok, mapError_error]

theorem addLine_eq_error_iff {line : List UInt8} {fault : Fault} :
    p.addLine number line = .error fault ↔
      readLine number line = .error fault ∨
        ∃ e cause, readLine number line = .ok (some e) ∧ p.add number e = .error cause ∧
          fault = .line number cause := by
  unfold addLine
  cases readLine number line with
  | error other => simp
  | ok entry =>
    cases entry with
    | none => simp
    | some e =>
      simp only [Except.ok.injEq, Option.some.injEq, reduceCtorEq, false_or, exists_and_left,
        exists_eq_left']
      cases p.add number e <;> simp [mapError_ok, mapError_error, eq_comm]

theorem addLines_cons_eq_ok_iff {line : List UInt8} {rest : List (List UInt8)} :
    p.addLines number (line :: rest) = .ok q ↔
      ∃ next, p.addLine number line = .ok next ∧ next.addLines (number + 1) rest = .ok q := by
  rw [addLines_cons]
  cases p.addLine number line <;> simp [Except.bind]

theorem addLines_concat_eq_ok_iff {xs : List (List UInt8)} {line : List UInt8} :
    p.addLines number (xs ++ [line]) = .ok q ↔
      ∃ before, p.addLines number xs = .ok before ∧
        before.addLine (number + xs.length) line = .ok q := by
  rw [addLines_append]
  cases p.addLines number xs with
  | error fault => simp [Except.bind]
  | ok before =>
    simp only [Except.bind, addLines_cons, Except.ok.injEq, exists_eq_left']
    cases before.addLine (number + xs.length) line <;> rfl

/-- Reading fails at the first line whose step fails, and none of the later ones is looked at. -/
theorem addLines_eq_error_iff {lines : List (List UInt8)} {fault : Fault} :
    p.addLines number lines = .error fault ↔
      ∃ before line after q, lines = before ++ line :: after ∧
        p.addLines number before = .ok q ∧
        q.addLine (number + before.length) line = .error fault := by
  constructor
  · intro failed
    induction lines generalizing p number with
    | nil => cases failed
    | cons line rest ih =>
      rw [addLines_cons] at failed
      cases step : p.addLine number line with
      | error other =>
        rw [step] at failed
        cases failed
        exact ⟨[], line, rest, p, rfl, rfl, step⟩
      | ok next =>
        rw [step] at failed
        obtain ⟨before, last, after, q, rfl, taken, stopped⟩ := ih failed
        refine ⟨line :: before, last, after, q, rfl, ?_, ?_⟩
        · exact addLines_cons_eq_ok_iff.mpr ⟨next, step, taken⟩
        · rwa [List.length_cons, Nat.add_comm before.length, ← Nat.add_assoc]
  · rintro ⟨before, line, after, q, rfl, taken, stopped⟩
    rw [addLines_append, taken]
    simp only [Except.bind, addLines_cons, stopped]

end Progress

end UnicodeData

end LexicalRuns
