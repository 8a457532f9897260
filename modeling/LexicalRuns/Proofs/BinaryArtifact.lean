import LexicalRuns.Artifact.Binary
import LexicalRuns.Proofs.PackedRun

/-! Binary artifacts, read after they have been written. Reading takes the words of written runs
one by one off the front and comes to what follows them; the header in front says how many they
are. So an artifact is read whole or not at all: cut anywhere it ends too early, and bytes put
behind it are left over. -/
namespace LexicalRuns.Artifact.Binary

@[simp] theorem length_wordBytes (word : UInt32) : (wordBytes word).length = 4 := rfl

@[simp] theorem readWord?_wordBytes (word : UInt32) (rest : List UInt8) :
    readWord? (wordBytes word ++ rest) = some (word, rest) := by
  have small := word.toNat_lt
  simp only [wordBytes, readWord?, List.cons_append, List.nil_append, UInt8.toNat_ofNat',
    Option.some.injEq, Prod.mk.injEq, and_true]
  apply UInt32.toNat.inj
  rw [UInt32.toNat_ofNat']
  omega

def body (runs : List Run) : List UInt8 := runs.flatMap fun r => wordBytes r.pack

/-- Written runs are read, whatever follows them. -/
theorem readRuns_body (before : Array Run) (runs : List Run) (count : Nat) (rest : List UInt8) :
    readRuns before (runs.length + count) (body runs ++ rest) =
      readRuns (before ++ runs.toArray) count rest := by
  induction runs generalizing before with
  | nil => simp [body]
  | cons r runs ih =>
    have first : body (r :: runs) ++ rest = wordBytes r.pack ++ (body runs ++ rest) := by
      simp [body]
    have more : (r :: runs).length + count = runs.length + count + 1 := by simp; omega
    rw [first, more]
    simp only [readRuns, readWord?_wordBytes, Run.unpack_pack, ih]
    simp

/-- The word in reserve does not matter. -/
theorem read_header (count reserved : UInt32) (rest : List UInt8) :
    read (magic ++ wordBytes count ++ wordBytes reserved ++ rest) =
      readRuns #[] count.toNat rest := by
  have long : ¬(magic ++ wordBytes count ++ wordBytes reserved ++ rest).length < 16 := by
    simp only [List.length_append, length_wordBytes, show magic.length = 8 from rfl]
    omega
  have start : (magic ++ wordBytes count ++ wordBytes reserved ++ rest).take 8 = magic := by
    simp [magic]
  have words : (magic ++ wordBytes count ++ wordBytes reserved ++ rest).drop 8 =
      wordBytes count ++ (wordBytes reserved ++ rest) := by
    simp [magic]
  have skipped : (wordBytes reserved ++ rest).drop 4 = rest := by simp [wordBytes]
  simp only [read, if_neg long, start, ne_eq, not_true_eq_false, if_false, words,
    readWord?_wordBytes, skipped]

def artifact (runs : List Run) : List UInt8 :=
  magic ++ wordBytes (.ofNat runs.length) ++ wordBytes 0 ++ body runs

theorem write_eq_ok {runs : List Run} (few : runs.length < UInt32.size) :
    write runs = .ok (artifact runs) :=
  if_pos few

theorem read_artifact_header {runs : List Run} (few : runs.length < UInt32.size)
    (rest : List UInt8) :
    read (magic ++ wordBytes (.ofNat runs.length) ++ wordBytes 0 ++ rest) =
      readRuns #[] runs.length rest := by
  rw [read_header, UInt32.toNat_ofNat_of_lt' few]

theorem read_artifact {runs : List Run} (few : runs.length < UInt32.size) :
    read (artifact runs) = .ok runs := by
  have whole := readRuns_body #[] runs 0 []
  rw [List.append_nil] at whole
  rw [artifact, read_artifact_header few]
  exact whole.trans (by simp [readRuns])

theorem exists_write {runs : List Run} (few : runs.length < UInt32.size) :
    ∃ bytes, write runs = .ok bytes ∧ read bytes = .ok runs :=
  ⟨artifact runs, write_eq_ok few, read_artifact few⟩

theorem artifact_injective {xs ys : List Run} (fewX : xs.length < UInt32.size)
    (fewY : ys.length < UInt32.size) (same : artifact xs = artifact ys) : xs = ys := by
  have loaded := read_artifact fewX
  rw [same, read_artifact fewY] at loaded
  exact (Except.ok.inj loaded).symm

theorem read_artifact_append {runs : List Run} (few : runs.length < UInt32.size)
    {rest : List UInt8} (more : rest ≠ []) :
    read (artifact runs ++ rest) = .error (.artifact (.trailingBytes rest.length)) := by
  obtain ⟨b, rest, rfl⟩ := List.exists_cons_of_ne_nil more
  have behind := readRuns_body #[] runs 0 (b :: rest)
  rw [artifact, List.append_assoc, read_artifact_header few]
  exact behind.trans rfl

theorem readWord?_eq_none_iff {bytes : List UInt8} :
    readWord? bytes = none ↔ bytes.length < 4 := by
  match bytes with
  | [] | [_] | [_, _] | [_, _, _] => simp [readWord?]
  | a :: b :: c :: d :: rest => simp [readWord?]

/-- A cut falls into some word, and the words before it are read. -/
theorem readRuns_take (before : Array Run) (runs : List Run) (cut : Nat)
    (short : cut < (body runs).length) :
    readRuns before runs.length ((body runs).take cut) = .error (.artifact .truncatedWord) := by
  induction runs generalizing before cut with
  | nil => exact absurd short (Nat.not_lt_zero cut)
  | cons r runs ih =>
    have first : body (r :: runs) = wordBytes r.pack ++ body runs := by simp [body]
    rw [first, List.length_append, length_wordBytes] at short
    rw [first, List.take_append, length_wordBytes]
    by_cases inside : cut < 4
    · have noWord : readWord? ((wordBytes r.pack).take cut ++ (body runs).take (cut - 4)) = none := by
        rw [readWord?_eq_none_iff]
        simp only [List.length_append, List.length_take, length_wordBytes]
        omega
      simp only [List.length_cons, readRuns, noWord]
    · have whole : (wordBytes r.pack).take cut = wordBytes r.pack :=
        List.take_of_length_le (Nat.le_of_not_lt inside)
      rw [whole]
      simp only [List.length_cons, readRuns, readWord?_wordBytes, Run.unpack_pack]
      exact ih _ _ (by omega)

theorem read_artifact_take_of_lt {runs : List Run} {cut : Nat} (inside : cut < 16) :
    read ((artifact runs).take cut) = .error (.artifact .tooShort) := by
  have short : ((artifact runs).take cut).length < 16 :=
    Nat.lt_of_le_of_lt (List.length_take_le ..) inside
  simp only [read, if_pos short]

theorem read_artifact_take {runs : List Run} (few : runs.length < UInt32.size) {cut : Nat}
    (beyond : 16 ≤ cut) (short : cut < (artifact runs).length) :
    read ((artifact runs).take cut) = .error (.artifact .truncatedWord) := by
  let header := magic ++ wordBytes (.ofNat runs.length) ++ wordBytes 0
  have size : header.length = 16 := rfl
  have split : (artifact runs).take cut = header ++ (body runs).take (cut - 16) := by
    rw [artifact, List.take_append, size, List.take_of_length_le beyond]
  rw [artifact, List.length_append, size] at short
  rw [split, read_artifact_header few]
  exact readRuns_take _ _ _ (by omega)

/-- A written artifact is read whole; what is left of it after a cut is refused, and so is an
artifact with anything behind it. -/
theorem read_written (runs : List Run) (few : runs.length < UInt32.size) :
    ∃ bytes, write runs = .ok bytes ∧ read bytes = .ok runs ∧
      (∀ cut < bytes.length, ∃ cause, read (bytes.take cut) = .error (.artifact cause) ∧
        cause.message = if cut < 16 then "bin too short" else "truncated u32") ∧
      ∀ rest ≠ [], ∃ cause, read (bytes ++ rest) = .error (.artifact cause) ∧
        cause.message = toString rest.length ++ " trailing bytes" := by
  refine ⟨artifact runs, write_eq_ok few, read_artifact few, fun cut short => ?_,
    fun rest more => ?_⟩
  · by_cases inside : cut < 16
    · exact ⟨.tooShort, read_artifact_take_of_lt inside, (if_pos inside).symm⟩
    · exact ⟨.truncatedWord, read_artifact_take few (Nat.le_of_not_lt inside) short,
        (if_neg inside).symm⟩
  · exact ⟨.trailingBytes rest.length, read_artifact_append few more, rfl⟩

def letters : Run := ⟨0x41, 26, .identifierStart, by decide, by decide, by decide⟩

/-- The artifact of one run has twenty bytes: a cut may fall into the header or into the word. -/
theorem read_written_letters :
    [letters].length < UInt32.size ∧
      ∃ bytes, write [letters] = .ok bytes ∧ bytes.length = 20 ∧ read bytes = .ok [letters] ∧
        (∃ cause, read (bytes.take 15) = .error (.artifact cause) ∧
          cause.message = "bin too short") ∧
        (∃ cause, read (bytes.take 19) = .error (.artifact cause) ∧
          cause.message = "truncated u32") ∧
        ∃ cause, read (bytes ++ [0, 0, 0]) = .error (.artifact cause) ∧
          cause.message = "3 trailing bytes" := by
  have few : [letters].length < UInt32.size := by decide
  obtain ⟨bytes, written, loaded, cut, longer⟩ := read_written [letters] few
  have size : bytes.length = 20 := by
    rw [write_eq_ok few] at written
    cases written
    rfl
  exact ⟨few, bytes, written, size, loaded, cut 15 (by omega), cut 19 (by omega),
    longer [0, 0, 0] (by decide)⟩

end LexicalRuns.Artifact.Binary
