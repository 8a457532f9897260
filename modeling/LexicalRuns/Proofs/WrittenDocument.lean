import LexicalRuns.Artifact.Document.Writer
import LexicalRuns.Proofs.DocumentObjects
import LexicalRuns.Proofs.PackedRun
import LexicalRuns.Proofs.SpelledTokens
import Mathlib.Data.Set.List

/-! Documents, read after they have been written. The text that is written spells the tokens of a
table, and these are read as the runs they came from; only then are the runs checked. -/
namespace LexicalRuns.Artifact.Document

open Json

/-! ### The tokens of a document -/

def runTokens (r : RawRun) : List Token := [
  .openObject, quoted "code_point", .colon, numeral r.start,
  .comma, quoted "length", .colon, numeral r.length,
  .comma, quoted "rule", .colon, quoted r.rule.name, .closeObject]

def furtherTokens (runs : List RawRun) : List Token := runs.flatMap fun r => .comma :: runTokens r

def elementTokens : List RawRun → List Token
  | [] => []
  | r :: rest => runTokens r ++ furtherTokens rest

def tableTokens (runs : List RawRun) : List Token :=
  [.openObject, quoted "runs", .colon, .openList] ++ elementTokens runs ++ [.closeList, .closeObject]

theorem spells_member {b : UInt8} {t : Token} (token : Spells [b] [t]) (before after key : String)
    (blank : (Text.encode before ++ Text.encode after).all isSpace = true)
    (plain : (Text.encode key).all isPlain = true) :
    Spells (Text.encode before ++ ([b] ++ (Text.encode after ++
      ((0x22 :: Text.encode key ++ [0x22]) ++ [0x3A, 0x20])))) [t, quoted key, .colon] := by
  rw [List.all_append, Bool.and_eq_true] at blank
  obtain ⟨blankBefore, blankAfter⟩ := blank
  have colon : Spells [0x3A, 0x20] [.colon] :=
    (Spells.single rfl fun _ => rfl).append (.blank rfl)
  exact (Spells.blank blankBefore).append
    (token.append ((Spells.blank blankAfter).append ((Spells.quoted plain).append colon)))

theorem spells_openObject : Spells [0x7B] [.openObject] := .single rfl fun _ => rfl

theorem spells_comma : Spells [0x2C] [.comma] := .single rfl fun _ => rfl

theorem spells_closeObject : Spells [0x7D] [.closeObject] := .single rfl fun _ => rfl

theorem isPlain_name (r : Rule) : (Text.encode r.name).all isPlain = true := by
  cases r <;> rfl

theorem spells_runText (r : RawRun) : Spells (Text.encode (runText r)) (runTokens r) := by
  have start : Spells (Text.encode "    \x7b\n      \"code_point\": ")
      [.openObject, quoted "code_point", .colon] :=
    spells_member spells_openObject "    " "\n      " "code_point" rfl rfl
  have length : Spells (Text.encode ",\n      \"length\": ") [.comma, quoted "length", .colon] :=
    spells_member spells_comma "" "\n      " "length" rfl rfl
  have rule : Spells (Text.encode ",\n      \"rule\": ") [.comma, quoted "rule", .colon] :=
    spells_member spells_comma "" "\n      " "rule" rfl rfl
  have blank : Spells (Text.encode "\n    ") [] := .blank rfl
  have whole := start.append (.number r.start rfl (length.append (.number r.length rfl
    (rule.append ((Spells.quoted (isPlain_name r.rule)).append
      (blank.append spells_closeObject))))))
  unfold runText
  simp only [Text.encode_append, List.append_assoc]
  -- the quotes around the name of the rule stand in the texts before and after it
  change Spells (Text.encode "    \x7b\n      \"code_point\": " ++
    (Text.encode (toString r.start) ++ (Text.encode ",\n      \"length\": " ++
      (Text.encode (toString r.length) ++ ((Text.encode ",\n      \"rule\": " ++ [0x22]) ++
        (Text.encode r.rule.name ++ (0x22 :: Text.encode "\n    " ++ [0x7D])))))))
    (runTokens r)
  simp only [List.append_assoc, List.cons_append, List.nil_append] at whole ⊢
  exact whole

theorem spells_furtherRuns (runs : List RawRun) :
    Spells (runs.flatMap fun r => Text.encode ",\n" ++ Text.encode (runText r))
      (furtherTokens runs) := by
  induction runs with
  | nil => exact .blank rfl
  | cons r rest ih =>
    have separator : Spells (Text.encode ",\n") [.comma] :=
      spells_comma.append (.blank (show (Text.encode "\n").all isSpace = true from rfl))
    exact (separator.append (spells_runText r)).append ih

theorem encode_intercalate (separator first : String) (rest : List String) :
    Text.encode (separator.intercalate (first :: rest)) =
      Text.encode first ++ rest.flatMap fun text => Text.encode separator ++ Text.encode text := by
  induction rest generalizing first with
  | nil => rw [String.intercalate_singleton, List.flatMap_nil, List.append_nil]
  | cons second rest ih =>
    rw [String.intercalate_cons_cons, Text.encode_append, Text.encode_append, ih,
      List.flatMap_cons, List.append_assoc, List.append_assoc]

theorem tokens_writeRaw (runs : List RawRun) :
    tokens (Text.encode (writeRaw runs)) = tableTokens runs := by
  have lineEnd : Spells (Text.encode "\n") [] := .blank rfl
  have start : Spells (Text.encode "\x7b\n  \"runs\": [")
      [.openObject, quoted "runs", .colon, .openList] :=
    (spells_member spells_openObject "" "\n  " "runs" rfl rfl).append
      (.single rfl fun _ => rfl)
  have close : Spells (Text.encode "]\n\x7d") [.closeList, .closeObject] :=
    (Spells.single rfl fun _ => rfl).append (lineEnd.append spells_closeObject)
  apply Spells.whole
  cases runs with
  | nil => exact start.append close
  | cons r rest =>
    have blank : Spells (Text.encode "\n  ") [] := .blank rfl
    have elements := (spells_runText r).append (spells_furtherRuns rest)
    have whole := (start.append lineEnd).append (elements.append (blank.append close))
    unfold writeRaw
    simp only [Text.encode_append, List.map_cons, encode_intercalate, List.flatMap_map]
    simp only [List.append_assoc] at whole ⊢
    exact whole

/-! ### Reading the tokens -/

theorem readU32_numeral {n : Nat} (small : n < UInt32.size) (rest : List Token) :
    readU32 (numeral n :: rest) = .ok (n, rest) := by
  have fits : n < UInt64.size := Nat.lt_trans small (by decide)
  simp only [numeral, readU32, numberValue_numeral fits]
  rw [if_pos ⟨Int.natCast_nonneg n, by exact_mod_cast small⟩]
  rfl

theorem readRule_quoted (r : Rule) (rest : List Token) :
    readRule (quoted r.name :: rest) = .ok (r, rest) := by
  simp only [quoted, readRule, ruleNamed, content_quoted, Rule.ofName?_name]
  rfl

theorem readKey_quoted (key : String) (rest : List Token) :
    readKey (quoted key :: rest) = .ok (.field key rest) := by
  simp only [quoted, readKey, content_quoted]

theorem nextMember_quoted (key : String) (rest : List Token) :
    nextMember true (quoted key :: rest) = .ok (.field key rest) := readKey_quoted key rest

theorem nextMember_comma (key : String) (rest : List Token) :
    nextMember false (.comma :: quoted key :: rest) = .ok (.field key rest) := readKey_quoted key rest

theorem expect_same (t : Token) (rest : List Token) : expect t (t :: rest) = .ok rest :=
  if_pos rfl

theorem readRunMembers_of_member {f g : RunFields} {first : Bool} {ts tail rest : List Token}
    {key : String} (comes : nextMember first ts = .ok (.field key tail))
    (member : f.readMember key tail = .ok (g, rest)) :
    readRunMembers f first ts = readRunMembers g false rest := by
  rw [readRunMembers_eq, turn, comes]
  simp only [member]

theorem readRunMembers_closeObject {f : RunFields} {r : RawRun} (finished : f.finish = .ok r)
    (rest : List Token) : readRunMembers f false (.closeObject :: rest) = .ok (r, rest) := by
  rw [readRunMembers_eq, turn, nextMember, finished]
  rfl

theorem RunFields.readMember_codePoint {f : RunFields} {n : Nat} (absent : f.start = none)
    (small : n < UInt32.size) (rest : List Token) :
    f.readMember "code_point" (.colon :: numeral n :: rest) =
      .ok ({ f with start := some n }, rest) := by
  simp [readMember, absent, expect_same, readU32_numeral small, bind, Except.bind, pure, Except.pure]

theorem RunFields.readMember_runLength {f : RunFields} {n : Nat} (absent : f.length = none)
    (small : n < UInt32.size) (rest : List Token) :
    f.readMember "length" (.colon :: numeral n :: rest) =
      .ok ({ f with length := some n }, rest) := by
  simp [readMember, absent, expect_same, readU32_numeral small, bind, Except.bind, pure, Except.pure]

theorem RunFields.readMember_rule {f : RunFields} (absent : f.rule = none) (r : Rule)
    (rest : List Token) :
    f.readMember "rule" (.colon :: quoted r.name :: rest) =
      .ok ({ f with rule := some r }, rest) := by
  simp [readMember, absent, expect_same, readRule_quoted, bind, Except.bind, pure, Except.pure]

theorem readRun_runTokens {r : RawRun} (start : r.start < UInt32.size)
    (length : r.length < UInt32.size) (rest : List Token) :
    readRun (runTokens r ++ rest) = .ok (r, rest) := by
  simp only [runTokens, List.cons_append, List.nil_append, readRun]
  rw [readRunMembers_of_member (nextMember_quoted _ _)
      (RunFields.readMember_codePoint rfl start _),
    readRunMembers_of_member (nextMember_comma _ _)
      (RunFields.readMember_runLength rfl length _),
    readRunMembers_of_member (nextMember_comma _ _) (RunFields.readMember_rule rfl r.rule _)]
  exact readRunMembers_closeObject rfl rest

theorem readRuns_of_element {before : List RawRun} {ts tail rest : List Token} {r : RawRun}
    (comes : nextElement before.isEmpty ts = .ok (some tail))
    (element : readRun tail = .ok (r, rest)) : readRuns before ts = readRuns (r :: before) rest := by
  rw [readRuns_eq, comes]
  simp only [element]

theorem readRuns_closeList (before : List RawRun) (rest : List Token) :
    readRuns before (.closeList :: rest) = .ok (before.reverse, rest) := by
  rw [readRuns_eq]
  rfl

theorem readRuns_furtherTokens {before runs : List RawRun} (further : before.isEmpty = false)
    (words : ∀ r ∈ runs, r.start < UInt32.size ∧ r.length < UInt32.size) (rest : List Token) :
    readRuns before (furtherTokens runs ++ .closeList :: rest) =
      .ok (before.reverse ++ runs, rest) := by
  induction runs generalizing before with
  | nil => rw [List.append_nil]; exact readRuns_closeList before rest
  | cons r later ih =>
    obtain ⟨⟨start, length⟩, words⟩ := List.forall_mem_cons.mp words
    have comes (after : List Token) : nextElement before.isEmpty (.comma :: runTokens r ++ after) =
        .ok (some (runTokens r ++ after)) := by
      rw [further]
      rfl
    have elements : furtherTokens (r :: later) = .comma :: runTokens r ++ furtherTokens later := rfl
    rw [elements, List.append_assoc,
      readRuns_of_element (comes _) (readRun_runTokens start length _), ih rfl words,
      List.reverse_cons, List.append_assoc, List.singleton_append]

theorem readRuns_elementTokens {runs : List RawRun}
    (words : ∀ r ∈ runs, r.start < UInt32.size ∧ r.length < UInt32.size) (rest : List Token) :
    readRuns [] (elementTokens runs ++ .closeList :: rest) = .ok (runs, rest) := by
  cases runs with
  | nil => exact readRuns_closeList [] rest
  | cons r later =>
    obtain ⟨⟨start, length⟩, words⟩ := List.forall_mem_cons.mp words
    have comes (after : List Token) : nextElement ([] : List RawRun).isEmpty
        (runTokens r ++ after) = .ok (some (runTokens r ++ after)) := rfl
    rw [elementTokens, List.append_assoc,
      readRuns_of_element (comes _) (readRun_runTokens start length _)]
    exact readRuns_furtherTokens rfl words rest

theorem readTableMembers_of_member {before after : Option (List RawRun)} {first : Bool}
    {ts tail rest : List Token} {key : String} (comes : nextMember first ts = .ok (.field key tail))
    (member : readTableMember before key tail = .ok (after, rest)) :
    readTableMembers before first ts = readTableMembers after false rest := by
  rw [readTableMembers_eq, turn, comes]
  simp only [member]

theorem readTableMembers_closeObject (runs : List RawRun) (rest : List Token) :
    readTableMembers (some runs) false (.closeObject :: rest) = .ok (runs, rest) := by
  rw [readTableMembers_eq]
  rfl

theorem readTable_tableTokens {runs : List RawRun}
    (words : ∀ r ∈ runs, r.start < UInt32.size ∧ r.length < UInt32.size) :
    readTable (tableTokens runs) = .ok (runs, []) := by
  have member : readTableMember none "runs"
      (.colon :: .openList :: (elementTokens runs ++ [.closeList, .closeObject])) =
        .ok (some runs, [.closeObject]) := by
    simp [readTableMember, expect_same, readList, readRuns_elementTokens words, bind, Except.bind,
      pure, Except.pure]
  simp only [tableTokens, List.cons_append, List.nil_append, readTable]
  rw [readTableMembers_of_member (nextMember_quoted _ _) member]
  exact readTableMembers_closeObject runs []

theorem readRaw_writeRaw {runs : List RawRun}
    (words : ∀ r ∈ runs, r.start < UInt32.size ∧ r.length < UInt32.size) :
    readRaw (Text.encode (writeRaw runs)) = .ok runs := by
  simp only [readRaw, tokens_writeRaw, readTable_tableTokens words]

/-! ### Checking what has been read -/

theorem mapM_check_raw (runs : List Run) : (runs.map Run.raw).mapM RawRun.check = .ok runs := by
  induction runs with
  | nil => rfl
  | cons run rest ih =>
    have passes : run.raw.check = .ok run := RawRun.check_eq_ok_iff.mpr rfl
    rw [List.map_cons, List.mapM_cons, passes, ih]
    rfl

theorem mapM_check_eq_error {r : RawRun} {fault : LexicalRuns.Fault} (fails : r.check = .error fault)
    (before : List Run) (after : List RawRun) :
    (before.map Run.raw ++ r :: after).mapM RawRun.check = .error fault := by
  rw [List.mapM_append, mapM_check_raw, List.mapM_cons, fails]
  rfl

theorem exists_map_raw {raws : List RawRun} (pass : ∀ r ∈ raws, ∃ run, r.check = .ok run) :
    ∃ runs : List Run, runs.map Run.raw = raws := by
  simp only [RawRun.check_eq_ok_iff] at pass
  exact (Set.range_list_map Run.raw).ge pass

/-- What is written is read again: runs that all pass their checks as they are, and otherwise the
fault of the first one that does not. -/
theorem read_writeRaw (raws : List RawRun)
    (words : ∀ r ∈ raws, r.start < UInt32.size ∧ r.length < UInt32.size) :
    ((∀ r ∈ raws, ∃ run, r.check = .ok run) →
      ∃ runs : List Run, runs.map Run.raw = raws ∧
        read (Text.encode (writeRaw raws)) = .ok runs) ∧
    (∀ before r after fault, raws = before ++ r :: after →
      (∀ q ∈ before, ∃ run, q.check = .ok run) → r.check = .error fault →
        read (Text.encode (writeRaw raws)) = .error fault) ∧
    ∀ runs : List Run, read (Text.encode (write runs)) = .ok runs := by
  have checked {raws : List RawRun}
      (words : ∀ r ∈ raws, r.start < UInt32.size ∧ r.length < UInt32.size) :
      read (Text.encode (writeRaw raws)) = raws.mapM RawRun.check := by
    simp only [read, readRaw_writeRaw words]
  refine ⟨fun pass => ?_, ?_, fun runs => ?_⟩
  · obtain ⟨runs, rfl⟩ := exists_map_raw pass
    exact ⟨runs, rfl, by rw [checked words, mapM_check_raw]⟩
  · rintro before r after fault rfl pass fails
    obtain ⟨runs, rfl⟩ := exists_map_raw pass
    rw [checked words, mapM_check_eq_error fails]
  · have words : ∀ r ∈ runs.map Run.raw, r.start < UInt32.size ∧ r.length < UInt32.size := by
      refine List.forall_mem_map.mpr fun run _ => ?_
      exact ⟨Nat.lt_trans run.start_lt (by decide), Nat.lt_trans run.length_lt (by decide)⟩
    rw [write, checked words, mapM_check_raw]

/-- Of two runs that do not pass, the one after a valid one is the first. -/
theorem read_writeRaw_beyond :
    read (Text.encode (writeRaw
      [⟨0x41, 26, .identifierStart⟩, ⟨0xFFFFFFFF, 0xFFFFFFFF, .whitespace⟩, ⟨9, 0, .whitespace⟩])) =
        .error (.overflow .codePoint 0xFFFFFFFF) := by
  refine (read_writeRaw _ ?_).2.1 [⟨0x41, 26, .identifierStart⟩] _ _ _ rfl ?_ (by rfl)
  · decide
  · simp only [List.forall_mem_singleton]
    exact ⟨_, rfl⟩

end LexicalRuns.Artifact.Document
