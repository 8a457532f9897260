import LexicalRuns.Proofs.BinaryArtifact
import LexicalRuns.Text.Utf8

/-! Binary artifacts of any origin. Behind a good header a record may hold a run, it may hold a word
that is none, or it may be cut off. Reading stops at the first record that is no run, and only when
there is none does it look for bytes left over. What it accepts is a written artifact, but for the
word in reserve. -/
namespace LexicalRuns.Artifact.Binary

def HasWord (bytes : List UInt8) (place : Nat) (word : UInt32) : Prop :=
  (bytes.drop place).take 4 = wordBytes word

/-- What the record at a place comes to. -/
inductive Yields (bytes : List UInt8) (place : Nat) : Except Fault Run → Prop where
  | missing (short : bytes.length < place + 4) :
      Yields bytes place (.error (.artifact .truncatedWord))
  | held (word : UInt32) (here : HasWord bytes place word) :
      Yields bytes place (Run.unpack word)

/-- The magic, and a count behind it. -/
structure Header (bytes : List UInt8) (count : UInt32) : Prop where
  long : 16 ≤ bytes.length
  start : bytes.take 8 = magic
  counted : HasWord bytes 8 count

/-- How the reading of `count` records from a place on can end. -/
inductive Outcome (bytes : List UInt8) (place count : Nat) : Except Fault (List Run) → Prop where
  | stopped (i : Nat) (fault : Fault) (inside : i < count)
      (before : ∀ j < i, ∃ r, Yields bytes (place + 4 * j) (.ok r))
      (failed : Yields bytes (place + 4 * i) (.error fault)) :
      Outcome bytes place count (.error fault)
  | trailing (all : ∀ i < count, ∃ r, Yields bytes (place + 4 * i) (.ok r))
      (more : place + 4 * count < bytes.length) :
      Outcome bytes place count
        (.error (.artifact (.trailingBytes (bytes.length - (place + 4 * count)))))
  | complete (runs : List Run) (many : runs.length = count)
      (all : ∀ i (inside : i < runs.length), Yields bytes (place + 4 * i) (.ok runs[i]))
      (whole : bytes.length = place + 4 * count) :
      Outcome bytes place count (.ok runs)

section Words

variable {bytes rest : List UInt8} {place : Nat} {word other : UInt32}

theorem readWord?_eq_some_iff :
    readWord? bytes = some (word, rest) ↔ bytes = wordBytes word ++ rest := by
  constructor
  · intro found
    match bytes with
    | [] | [_] | [_, _] | [_, _, _] => simp [readWord?] at found
    | a :: b :: c :: d :: tail =>
      simp only [readWord?, Option.some.injEq, Prod.mk.injEq] at found
      obtain ⟨rfl, rfl⟩ := found
      have smallA := a.toNat_lt
      have smallB := b.toNat_lt
      have smallC := c.toNat_lt
      have smallD := d.toNat_lt
      simp only [wordBytes, UInt32.toNat_ofNat', List.cons_append, List.nil_append,
        List.cons.injEq, and_true]
      refine ⟨?_, ?_, ?_, ?_⟩ <;> apply UInt8.toNat.inj <;> rw [UInt8.toNat_ofNat'] <;> omega
  · rintro rfl
    exact readWord?_wordBytes word rest

theorem readWord?_drop_eq_some_iff :
    readWord? (bytes.drop place) = some (word, rest) ↔
      HasWord bytes place word ∧ rest = bytes.drop (place + 4) := by
  rw [readWord?_eq_some_iff, HasWord, ← List.drop_drop]
  constructor
  · intro split
    rw [split]
    exact ⟨List.take_left' (length_wordBytes word), (List.drop_left' (length_wordBytes word)).symm⟩
  · rintro ⟨here, rfl⟩
    rw [← here, List.take_append_drop]

theorem hasWord_iff :
    HasWord bytes place word ↔ readWord? (bytes.drop place) = some (word, bytes.drop (place + 4)) := by
  rw [readWord?_drop_eq_some_iff, and_iff_left rfl]

theorem HasWord.place_le (here : HasWord bytes place word) : place + 4 ≤ bytes.length := by
  have size := congrArg List.length here
  simp only [List.length_take, List.length_drop, length_wordBytes] at size
  omega

theorem HasWord.unique (here : HasWord bytes place word) (there : HasWord bytes place other) :
    word = other := by
  rw [hasWord_iff] at here there
  exact (Prod.mk.inj (Option.some.inj (here.symm.trans there))).1

theorem exists_hasWord (bytes : List UInt8) (place : Nat) (long : place + 4 ≤ bytes.length) :
    ∃ word, HasWord bytes place word := by
  cases found : readWord? (bytes.drop place) with
  | none =>
    rw [readWord?_eq_none_iff, List.length_drop] at found
    omega
  | some first =>
    obtain ⟨word, rest⟩ := first
    exact ⟨word, (readWord?_drop_eq_some_iff.mp found).1⟩

end Words

section Records

variable {bytes : List UInt8} {place count : Nat}

/-- A record is cut off, or it has a word, but only one. -/
theorem Yields.unique {first second : Except Fault Run} (here : Yields bytes place first)
    (there : Yields bytes place second) : first = second := by
  cases here with
  | missing short =>
    cases there with
    | missing => rfl
    | held word here => exact absurd here.place_le (Nat.not_le.mpr short)
  | held word here =>
    cases there with
    | missing short => exact absurd here.place_le (Nat.not_le.mpr short)
    | held other there => rw [here.unique there]

theorem yields_ok_iff {r : Run} : Yields bytes place (.ok r) ↔ HasWord bytes place r.pack := by
  constructor
  · generalize asked : Except.ok r = outcome
    intro yields
    cases yields with
    | missing => cases asked
    | held word here => exact Run.pack_of_unpack asked.symm ▸ here
  · intro here
    exact r.unpack_pack ▸ Yields.held r.pack here

theorem Outcome.cons {r : Run} (first : Yields bytes place (.ok r))
    {outcome : Except Fault (List Run)} (later : Outcome bytes (place + 4) count outcome) :
    Outcome bytes place (count + 1) (outcome.map (r :: ·)) := by
  have next (i : Nat) : place + 4 + 4 * i = place + 4 * (i + 1) := by omega
  cases later with
  | stopped i fault inside before failed =>
    refine .stopped (i + 1) fault (by omega) (fun j below => ?_) (next i ▸ failed)
    cases j with
    | zero => exact ⟨r, first⟩
    | succ j => exact next j ▸ before j (by omega)
  | trailing all more =>
    have size : bytes.length - (place + 4 + 4 * count) =
        bytes.length - (place + 4 * (count + 1)) := by omega
    refine size ▸ .trailing (fun i below => ?_) (by omega)
    cases i with
    | zero => exact ⟨r, first⟩
    | succ i => exact next i ▸ all i (by omega)
  | complete runs many all whole =>
    refine .complete (r :: runs) (by simp [many]) (fun i inside => ?_) (by omega)
    cases i with
    | zero => exact first
    | succ i => exact next i ▸ all i (Nat.lt_of_succ_lt_succ inside)

/-- Whether some record fails is settled by the first that does. -/
theorem Outcome.unique {first second : Except Fault (List Run)}
    (here : Outcome bytes place count first) (there : Outcome bytes place count second) :
    first = second := by
  have apart {i : Nat} {fault : Fault} {r : Run} (failed : Yields bytes i (.error fault))
      (held : Yields bytes i (.ok r)) : False := nomatch failed.unique held
  cases here with
  | stopped i fault inside before failed =>
    cases there with
    | stopped j other insideJ beforeJ failedJ =>
      rcases Nat.lt_trichotomy i j with lt | rfl | gt
      · obtain ⟨r, held⟩ := beforeJ i lt
        exact (apart failed held).elim
      · cases failed.unique failedJ
        rfl
      · obtain ⟨r, held⟩ := before j gt
        exact (apart failedJ held).elim
    | trailing all more =>
      obtain ⟨r, held⟩ := all i inside
      exact (apart failed held).elim
    | complete runs many all whole => exact (apart failed (all i (many ▸ inside))).elim
  | trailing all more =>
    cases there with
    | stopped i fault inside before failed =>
      obtain ⟨r, held⟩ := all i inside
      exact (apart failed held).elim
    | trailing => rfl
    | complete runs many all whole => omega
  | complete runs many all whole =>
    cases there with
    | stopped i fault inside before failed => exact (apart failed (all i (many ▸ inside))).elim
    | trailing all more => omega
    | complete others manyOthers allOthers =>
      congr 1
      refine List.ext_getElem (many.trans manyOthers.symm) fun i inside insideOthers => ?_
      exact Except.ok.inj ((all i inside).unique (allOthers i insideOthers))

/-- The runs read before stand in front. -/
theorem readRuns_eq_map (before : Array Run) (count : Nat) (bytes : List UInt8) :
    readRuns before count bytes = (readRuns #[] count bytes).map (before.toList ++ ·) := by
  induction count generalizing before bytes with
  | zero => cases bytes <;> simp [readRuns, Except.map]
  | succ count ih =>
    simp only [readRuns]
    split
    next => rfl
    next word rest _ =>
      split
      next => rfl
      next run _ =>
        rw [ih, ih (#[].push run)]
        cases readRuns #[] count rest <;> simp [Except.map]

theorem outcome_readRuns (bytes : List UInt8) (place count : Nat) (bound : place ≤ bytes.length) :
    Outcome bytes place count (readRuns #[] count (bytes.drop place)) := by
  have noneBefore {P : (i : Nat) → i < 0 → Prop} (i : Nat) (below : i < 0) : P i below :=
    absurd below (Nat.not_lt_zero i)
  induction count generalizing place with
  | zero =>
    have size : (bytes.drop place).length = bytes.length - place := List.length_drop
    cases behind : bytes.drop place with
    | nil =>
      rw [behind, List.length_nil] at size
      exact .complete [] rfl noneBefore (by omega)
    | cons b rest =>
      rw [behind, List.length_cons] at size
      simp only [readRuns, List.length_cons, size]
      exact .trailing noneBefore (by omega)
  | succ count ih =>
    simp only [readRuns]
    split
    next cut =>
      rw [readWord?_eq_none_iff, List.length_drop] at cut
      exact .stopped 0 _ (Nat.succ_pos count) noneBefore (.missing (by omega))
    next word rest found =>
      obtain ⟨here, behind⟩ := readWord?_drop_eq_some_iff.mp found
      cases unpacked : Run.unpack word with
      | error fault =>
        exact .stopped 0 fault (Nat.succ_pos count) noneBefore (unpacked ▸ .held word here)
      | ok run =>
        have first : Yields bytes place (.ok run) := unpacked ▸ .held word here
        simp only
        rw [readRuns_eq_map, behind]
        exact Outcome.cons first (ih (place + 4) here.place_le)

theorem drop_eq_body {runs : List Run} (whole : bytes.length = place + 4 * runs.length)
    (all : ∀ i (inside : i < runs.length), Yields bytes (place + 4 * i) (.ok runs[i])) :
    bytes.drop place = body runs := by
  induction runs generalizing place with
  | nil => exact List.drop_of_length_le (by simp at whole; omega)
  | cons r runs ih =>
    have first := yields_ok_iff.mp (all 0 (by simp))
    have size : bytes.length = place + 4 + 4 * runs.length := by simp at whole; omega
    have later : bytes.drop (place + 4) = body runs := by
      refine ih size fun i inside => ?_
      have next : place + 4 + 4 * i = place + 4 * (i + 1) := by omega
      exact next ▸ all (i + 1) (Nat.succ_lt_succ inside)
    rw [← List.take_append_drop 4 (bytes.drop place), List.drop_drop, later]
    exact congrArg (· ++ body runs) first

end Records

section Headers

variable {bytes : List UInt8} {count : UInt32}

theorem Header.read_eq (header : Header bytes count) :
    read bytes = readRuns #[] count.toNat (bytes.drop 16) := by
  simp only [read, if_neg (Nat.not_lt.mpr header.long), header.start, ne_eq, not_true_eq_false,
    if_false, hasWord_iff.mp header.counted, List.drop_drop]

theorem exists_header {runs : List Run} (accepted : read bytes = .ok runs) :
    ∃ count, Header bytes count := by
  unfold read at accepted
  split at accepted
  next short => cases accepted
  next long =>
    split at accepted
    next other => cases accepted
    next start =>
      obtain ⟨count, counted⟩ := exists_hasWord bytes 8 (by omega)
      exact ⟨count, Nat.le_of_not_lt long, Decidable.not_not.mp start, counted⟩

theorem Header.outcome_iff (header : Header bytes count) (outcome : Except Fault (List Run)) :
    read bytes = outcome ↔ Outcome bytes 16 count.toNat outcome := by
  have ends := outcome_readRuns bytes 16 count.toNat header.long
  rw [header.read_eq]
  constructor
  · rintro rfl
    exact ends
  · exact ends.unique

/-- The runs are those of the records, and the file ends with the last of them. -/
theorem read_eq_ok_iff (runs : List Run) :
    read bytes = .ok runs ↔
      ∃ count, Header bytes count ∧ runs.length = count.toNat ∧
        bytes.length = 16 + 4 * runs.length ∧
        ∀ i (inside : i < runs.length), Yields bytes (16 + 4 * i) (.ok runs[i]) := by
  constructor
  · intro accepted
    obtain ⟨count, header⟩ := exists_header accepted
    cases (header.outcome_iff _).mp accepted with
    | complete _ many all whole => exact ⟨count, header, many, many ▸ whole, all⟩
  · intro h
    obtain ⟨count, header, many, whole, all⟩ := h
    exact (header.outcome_iff _).mpr (.complete runs many all (many ▸ whole))

theorem write_of_read {runs : List Run} (accepted : read bytes = .ok runs) :
    write runs = .ok (bytes.take 12 ++ [0, 0, 0, 0] ++ bytes.drop 16) := by
  obtain ⟨count, header, many, whole, all⟩ := (read_eq_ok_iff runs).mp accepted
  have few : runs.length < UInt32.size := many ▸ count.toNat_lt
  have same : UInt32.ofNat runs.length = count := by rw [many, UInt32.ofNat_toNat]
  have front : bytes.take 12 = magic ++ wordBytes count := by
    rw [← header.start, ← header.counted, ← List.take_add]
  rw [write_eq_ok few, artifact, same, front, drop_eq_body whole all]
  rfl

theorem checkBounds_ne_artifact (start length : Nat) (cause : ArtifactFault) :
    Run.checkBounds start length ≠ .error (.artifact cause) := by
  unfold Run.checkBounds
  split
  · nofun
  split
  · nofun
  split <;> nofun

/-- A record is at fault for itself and not for what comes after the last. -/
theorem yields_ne_trailingBytes {place : Nat} {outcome : Except Fault Run}
    (yields : Yields bytes place outcome) (left : Nat) :
    outcome ≠ .error (.artifact (.trailingBytes left)) := by
  intro same
  cases yields with
  | missing => cases same
  | held word =>
    simp only [Run.unpack] at same
    split at same
    next unused => cases same
    next rule _ =>
      unfold RawRun.check at same
      split at same
      next fault refused =>
        cases same
        exact checkBounds_ne_artifact _ _ _ refused
      next => cases same

theorem Header.trailingBytes_iff (header : Header bytes count) (left : Nat) :
    read bytes = .error (.artifact (.trailingBytes left)) ↔
      (∀ i < count.toNat, ∃ r, Yields bytes (16 + 4 * i) (.ok r)) ∧ 0 < left ∧
        bytes.length = 16 + 4 * count.toNat + left := by
  rw [header.outcome_iff]
  constructor
  · intro ends
    cases ends with
    | stopped i fault inside before failed =>
      exact absurd rfl (yields_ne_trailingBytes failed left)
    | trailing all more => exact ⟨all, by omega, by omega⟩
  · intro h
    obtain ⟨all, some, size⟩ := h
    obtain rfl : bytes.length - (16 + 4 * count.toNat) = left := by omega
    exact .trailing all (by omega)

end Headers

/-- Reading accepts the files that are as long as their count says and hold a run in each record.
Writing the runs again changes only the word in reserve. Behind a good header the first record that
is no run decides, and only after all of them what is left over. -/
theorem read_decides (bytes : List UInt8) :
    (∀ runs, read bytes = .ok runs ↔
      ∃ count, bytes.length = 16 + 4 * count.toNat ∧ bytes.take 8 = magic ∧
        HasWord bytes 8 count ∧ runs.length = count.toNat ∧
        ∀ i (inside : i < runs.length), ∃ word, HasWord bytes (16 + 4 * i) word ∧
          Run.unpack word = .ok runs[i]) ∧
    (∀ runs, read bytes = .ok runs →
      write runs = .ok (bytes.take 12 ++ [0, 0, 0, 0] ++ bytes.drop 16)) ∧
    ∀ count, Header bytes count →
      (∀ outcome, read bytes = outcome ↔ Outcome bytes 16 count.toNat outcome) ∧
      ∀ left, read bytes = .error (.artifact (.trailingBytes left)) ↔
        (∀ i < count.toNat, ∃ r, Yields bytes (16 + 4 * i) (.ok r)) ∧ 0 < left ∧
          bytes.length = 16 + 4 * count.toNat + left := by
  refine ⟨fun runs => ?_, fun runs => write_of_read, fun count header =>
    ⟨header.outcome_iff, header.trailingBytes_iff⟩⟩
  rw [read_eq_ok_iff]
  constructor
  · intro h
    obtain ⟨count, header, many, whole, all⟩ := h
    refine ⟨count, many ▸ whole, header.start, header.counted, many, fun i inside => ?_⟩
    exact ⟨runs[i].pack, yields_ok_iff.mp (all i inside), runs[i].unpack_pack⟩
  · intro h
    obtain ⟨count, whole, start, counted, many, all⟩ := h
    refine ⟨count, ⟨by omega, start, counted⟩, many, many ▸ whole, fun i inside => ?_⟩
    obtain ⟨word, here, unpacked⟩ := all i inside
    exact unpacked ▸ .held word here

def inReserve : List UInt8 :=
  Text.encode "CPRUN001" ++ [1, 0, 0, 0] ++ [0xEF, 0xBE, 0xAD, 0xDE] ++ [0x41, 0, 0x40, 0x43]

/-- It is read, and written with zero there. -/
theorem read_decides_in_reserve :
    read inReserve = .ok [letters] ∧
      write [letters] =
        .ok (Text.encode "CPRUN001" ++ [1, 0, 0, 0] ++ [0, 0, 0, 0] ++ [0x41, 0, 0x40, 0x43]) ∧
      Header inReserve 1 ∧ Outcome inReserve 16 1 (.ok [letters]) := by
  have accepted : read inReserve = .ok [letters] := rfl
  have header : Header inReserve 1 := ⟨by decide, by decide, by unfold HasWord; decide⟩
  have decided := read_decides inReserve
  exact ⟨accepted, decided.2.1 _ accepted, header, ((decided.2.2 1 header).1 _).mp accepted⟩

end LexicalRuns.Artifact.Binary
