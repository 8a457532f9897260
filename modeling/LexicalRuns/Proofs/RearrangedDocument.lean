import LexicalRuns.Proofs.DocumentObjects
import LexicalRuns.Proofs.SpacedTokens
import LexicalRuns.Proofs.WrittenDocument

/-! Documents that say the same in other words. The members of the table and of its runs may come in
any order, among others that are passed over, and white space may stand between all tokens. What may
not be is that a field is missing or given twice. -/
namespace LexicalRuns.Artifact.Document

open Json

/-! ### Tables -/

/-- A member of a table: its runs, which are all written as objects, or one that is passed over. -/
inductive TableMember where
  | runs (name : List Piece) (records : List (List Pair))
  | other (member : Pair)

def TableMember.pair : TableMember → Pair
  | .runs name records => ⟨name, listTokens (records.map objectTokens)⟩
  | .other member => member

def TableMember.WellFormed : TableMember → Prop
  | .runs name records =>
    content name none = .ok "runs" ∧ ∀ ps ∈ records, ∀ p ∈ ps, IsValue p.value
  | .other p => content p.name none ≠ .ok "runs" ∧ IsValue p.value

variable {table other : List TableMember} {m n : TableMember} {ps qs : List Pair}
  {bytes : List UInt8} {raws : List RawRun}

def TableMember.Readable : TableMember → Prop
  | .runs name records =>
    content name none = .ok "runs" ∧ ∀ ps ∈ records, ∀ p ∈ ps, runObject.Readable p
  | .other p => IsValue p.value ∧ tableObject.Holds p none

def TableMember.item : TableMember → Option (Reading (List RawRun))
  | .runs _ records => some (records.mapM runObject.outcome)
  | .other _ => none

theorem TableMember.isValue_runs (name : List Piece) {records : List (List Pair)}
    (values : ∀ ps ∈ records, ∀ p ∈ ps, IsValue p.value) : IsValue (runs name records).pair.value :=
  .list _ (List.forall_mem_map.mpr fun ps member => .object ps (values ps member))

theorem TableMember.Readable.holds (readable : m.Readable) : tableObject.Holds m.pair m.item := by
  cases m with
  | runs name records =>
    obtain ⟨named, readable⟩ := readable
    exact ⟨_, named, rfl, fun runs =>
      readField_yields (readList_yields readable) runs.isSome "runs" some⟩
  | other p => exact readable.2

theorem TableMember.Readable.pair (readable : m.Readable) : tableObject.Readable m.pair := by
  refine ⟨?_, _, readable.holds⟩
  cases m with
  | runs name records =>
    exact isValue_runs name fun ps member p inside => (readable.2 ps member p inside).isValue
  | other p => exact readable.1

theorem TableMember.WellFormed.isValue (wellFormed : m.WellFormed) : IsValue m.pair.value := by
  cases m with
  | runs name records => exact isValue_runs name wellFormed.2
  | other p => exact wellFormed.2

theorem TableMember.WellFormed.shows (wellFormed : m.WellFormed) :
    tableObject.Shows m.pair m.Readable := by
  intro key runs rest after tail named accepted
  change readTableMember runs key _ = _ at accepted
  rw [readTableMember_eq] at accepted
  cases m with
  | runs name records =>
    obtain ⟨isRuns, values⟩ := wellFormed
    have same : (Except.ok key : Except Defect String) = .ok "runs" := named.symm.trans isRuns
    cases same
    rw [if_pos rfl] at accepted
    obtain ⟨list, rest', read⟩ := exists_value accepted
    exact ⟨isRuns, readable_of_readList values read⟩
  | other p =>
    obtain ⟨notRuns, isValue⟩ := wellFormed
    refine ⟨isValue, ObjectReader.holds_other named (fun known => notRuns ?_) isValue⟩
    exact named.trans (congrArg Except.ok (List.mem_singleton.mp known))

/-! ### Whole documents -/

theorem readTable_yields (readable : ∀ p ∈ ps, tableObject.Readable p) :
    Yields readTable (objectTokens ps) (tableObject.outcome ps) :=
  fun rest => ObjectReader.members_pairs readable tableObject.empty true rest

theorem readRaw_of_spaced (readable : ∀ p ∈ ps, tableObject.Readable p)
    (spaced : Spaced (objectTokens ps) bytes) : readRaw bytes = tableObject.outcome ps := by
  have whole := readTable_yields readable []
  rw [List.append_nil] at whole
  rw [readRaw, tokens_of_spaced (fun p member => (readable p member).isValue) spaced, whole]
  cases tableObject.outcome ps <;> rfl

theorem readable_of_readRaw (wellFormed : ∀ m ∈ table, m.WellFormed)
    (text : Spaced (objectTokens (table.map TableMember.pair)) bytes)
    (accepted : readRaw bytes = .ok raws) : ∀ m ∈ table, m.Readable := by
  have values : ∀ p ∈ table.map TableMember.pair, IsValue p.value :=
    List.forall_mem_map.mpr fun m member => (wellFormed m member).isValue
  rw [readRaw, tokens_of_spaced values text] at accepted
  split at accepted
  next => cases accepted
  next runs read =>
    exact ObjectReader.forall_of_members (R := tableObject)
      (fun m member => (wellFormed m member).shows) (fun _ readable => readable.pair) read
  next => cases accepted

/-! ### Rearranged documents -/

inductive TableMember.Rearranged : TableMember → TableMember → Prop
  | runs (name : List Piece) {records records' : List (List Pair)}
      (extended : List.Forall₂ (Extends runFields) records records') :
      Rearranged (.runs name records) (.runs name records')
  | other (p : Pair) : Rearranged (.other p) (.other p)

/-- The members of the runs in another order and with further ones, and then those of the table. -/
def Rearranged (table : List TableMember) (members : List Pair) : Prop :=
  ∃ inside, List.Forall₂ TableMember.Rearranged table inside ∧
    Extends tableFields (inside.map TableMember.pair) members

theorem mapM_outcome_extends {records records' : List (List Pair)}
    (extended : List.Forall₂ (Extends runFields) records records')
    (readable : ∀ ps ∈ records, ∀ p ∈ ps, runObject.Readable p)
    (accepted : records.mapM runObject.outcome = .ok raws) :
    (∀ ps ∈ records', ∀ p ∈ ps, runObject.Readable p) ∧
      records'.mapM runObject.outcome = .ok raws := by
  induction extended generalizing raws with
  | nil => exact ⟨readable, accepted⟩
  | cons first _ ih =>
    obtain ⟨here, readable⟩ := List.forall_mem_cons.mp readable
    rw [List.mapM_cons] at accepted
    obtain ⟨r, one, accepted⟩ := of_bind_eq_ok accepted
    obtain ⟨later, others, accepted⟩ := of_bind_eq_ok accepted
    obtain ⟨here, one⟩ := ObjectReader.outcome_extends here first one
    obtain ⟨readable, others⟩ := ih readable others
    refine ⟨List.forall_mem_cons.mpr ⟨here, readable⟩, ?_⟩
    rw [List.mapM_cons, one, others]
    exact accepted

theorem TableMember.Rearranged.step {s t : Option (List RawRun)} (rearranged : m.Rearranged n)
    (readable : m.Readable) (read : tableObject.step s m.pair = .ok t) :
    n.Readable ∧ tableObject.step s n.pair = .ok t := by
  cases rearranged with
  | other p => exact ⟨readable, read⟩
  | runs name extended =>
    rw [readable.holds.step] at read
    obtain ⟨rfl, raws, accepted, rfl⟩ := exists_of_putRuns read
    obtain ⟨inside, accepted⟩ := mapM_outcome_extends extended readable.2 accepted
    have readable : (TableMember.runs name _).Readable := ⟨readable.1, inside⟩
    refine ⟨readable, ?_⟩
    rw [readable.holds.step]
    exact congrArg (putRuns none) accepted

theorem foldlM_rearranged {s t : Option (List RawRun)}
    (rearranged : List.Forall₂ TableMember.Rearranged table other)
    (readable : ∀ m ∈ table, m.Readable)
    (read : (table.map TableMember.pair).foldlM tableObject.step s = .ok t) :
    (∀ m ∈ other, m.Readable) ∧
      (other.map TableMember.pair).foldlM tableObject.step s = .ok t := by
  induction rearranged generalizing s with
  | nil => exact ⟨readable, read⟩
  | cons first _ ih =>
    obtain ⟨here, readable⟩ := List.forall_mem_cons.mp readable
    rw [List.map_cons, List.foldlM_cons] at read
    obtain ⟨u, one, read⟩ := of_bind_eq_ok read
    obtain ⟨here, one⟩ := first.step here one
    obtain ⟨readable, read⟩ := ih readable read
    refine ⟨List.forall_mem_cons.mpr ⟨here, readable⟩, ?_⟩
    rw [List.map_cons, List.foldlM_cons, one]
    exact read

theorem outcome_rearranged (rearranged : Rearranged table qs) (readable : ∀ m ∈ table, m.Readable)
    (accepted : tableObject.outcome (table.map TableMember.pair) = .ok raws) :
    (∀ q ∈ qs, tableObject.Readable q) ∧ tableObject.outcome qs = .ok raws := by
  obtain ⟨inside, same, extended⟩ := rearranged
  obtain ⟨t, read, finished⟩ := of_bind_eq_ok accepted
  obtain ⟨readable, read⟩ := foldlM_rearranged same readable read
  apply ObjectReader.outcome_extends (R := tableObject)
    (List.forall_mem_map.mpr fun m member => (readable m member).pair) extended
  rw [ObjectReader.outcome, read]
  exact finished

/-! ### Documents with a fault -/

/-- A change to the members with the key of a field, either in the table or in one of its runs. -/
inductive InOneObject (change : String → List Pair → List Pair → Prop) (field : String) :
    List TableMember → List Pair → Prop
  | table {table members} (known : field ∈ tableFields)
      (changed : change field (table.map TableMember.pair) members) :
      InOneObject change field table members
  | run {before name earlier ps qs later after} (known : field ∈ runFields)
      (changed : change field ps qs) :
      InOneObject change field (before ++ .runs name (earlier ++ ps :: later) :: after)
        ((before ++ .runs name (earlier ++ qs :: later) :: after).map TableMember.pair)

/-- Up to any run of a table that is accepted there is no fault. -/
theorem exists_run {before after : List TableMember} {name : List Piece}
    {earlier later : List (List Pair)}
    (readable : (TableMember.runs name (earlier ++ ps :: later)).Readable)
    (accepted : tableObject.outcome
      ((before ++ .runs name (earlier ++ ps :: later) :: after).map TableMember.pair) = .ok raws) :
    (before.map TableMember.pair).foldlM tableObject.step none = .ok none ∧
      ∃ first r, earlier.mapM runObject.outcome = .ok first ∧ runObject.outcome ps = .ok r := by
  rw [List.map_append, List.map_cons] at accepted
  obtain ⟨s, t, read, rest, -⟩ := ObjectReader.exists_foldlM accepted
  rw [List.foldlM_cons] at rest
  obtain ⟨u, filled, -⟩ := of_bind_eq_ok rest
  rw [readable.holds.step] at filled
  obtain ⟨rfl, all, list, -⟩ := exists_of_putRuns filled
  rw [List.mapM_append] at list
  obtain ⟨first, up, list⟩ := of_bind_eq_ok list
  obtain ⟨_, list, -⟩ := of_bind_eq_ok list
  rw [List.mapM_cons] at list
  obtain ⟨r, one, -⟩ := of_bind_eq_ok list
  exact ⟨read, first, r, up, one⟩

/-- The first run with a fault is the fault of the table. -/
theorem outcome_of_run {before after : List TableMember} {name : List Piece}
    {earlier later : List (List Pair)} {first : List RawRun} {fault : Json.Fault}
    (readable : (TableMember.runs name (earlier ++ qs :: later)).Readable)
    (read : (before.map TableMember.pair).foldlM tableObject.step none = .ok none)
    (up : earlier.mapM runObject.outcome = .ok first)
    (fails : runObject.outcome qs = .error fault) :
    tableObject.outcome
      ((before ++ .runs name (earlier ++ qs :: later) :: after).map TableMember.pair) =
        .error fault := by
  rw [List.map_append, List.map_cons]
  apply ObjectReader.outcome_of_step (R := tableObject) read
  rw [readable.holds.step]
  have list : (earlier ++ qs :: later).mapM runObject.outcome = .error fault := by
    rw [List.mapM_append, up, List.mapM_cons, fails]
    rfl
  exact congrArg (putRuns none) list

theorem outcome_inOneObject {change : String → List Pair → List Pair → Prop} {field : String}
    {fault : Json.Fault}
    (fails : ∀ {State Field Result : Type} (R : ObjectReader State Field Result) {ps qs r},
      field ∈ R.fields → (∀ p ∈ ps, R.Readable p) → change field ps qs → R.outcome ps = .ok r →
        (∀ q ∈ qs, R.Readable q) ∧ R.outcome qs = .error fault)
    (changed : InOneObject change field table qs) (readable : ∀ m ∈ table, m.Readable)
    (accepted : tableObject.outcome (table.map TableMember.pair) = .ok raws) :
    (∀ q ∈ qs, tableObject.Readable q) ∧ tableObject.outcome qs = .error fault := by
  cases changed with
  | table known changed =>
    exact fails tableObject known
      (List.forall_mem_map.mpr fun m member => (readable m member).pair) changed accepted
  | @run before name earlier ps qs later after known changed =>
    obtain ⟨outer, rest⟩ := List.forall_mem_append.mp readable
    obtain ⟨whole, rest⟩ := List.forall_mem_cons.mp rest
    obtain ⟨read, first, r, up, one⟩ := exists_run whole accepted
    obtain ⟨named, runs⟩ := whole
    obtain ⟨runs, here⟩ := List.forall_mem_append.mp runs
    obtain ⟨here, further⟩ := List.forall_mem_cons.mp here
    obtain ⟨here, one⟩ := fails runObject known here changed one
    have damaged : (TableMember.runs name (earlier ++ qs :: later)).Readable :=
      ⟨named, List.forall_mem_append.mpr ⟨runs, List.forall_mem_cons.mpr ⟨here, further⟩⟩⟩
    have all : ∀ m ∈ before ++ .runs name (earlier ++ qs :: later) :: after, m.Readable :=
      List.forall_mem_append.mpr ⟨outer, List.forall_mem_cons.mpr ⟨damaged, rest⟩⟩
    exact ⟨List.forall_mem_map.mpr fun m member => (all m member).pair,
      outcome_of_run damaged read up one⟩

/-- A document that is accepted is accepted with the same runs after its members have been put in
another order, among further ones, and its tokens have been spaced in another way. Without the
member of a field, or with two for one field, there is a fault in the shape of the document. -/
theorem read_rearranged {runs : List Run} (wellFormed : ∀ m ∈ table, m.WellFormed)
    (text : Spaced (objectTokens (table.map TableMember.pair)) bytes)
    (accepted : read bytes = .ok runs) :
    (∀ members bytes', Rearranged table members → Spaced (objectTokens members) bytes' →
      read bytes' = .ok runs) ∧
    (∀ field members bytes', InOneObject Lacks field table members →
      Spaced (objectTokens members) bytes' →
        read bytes' = .error (.json (.shape (.missingField field)))) ∧
    ∀ field members bytes', InOneObject Doubles field table members →
      Spaced (objectTokens members) bytes' →
        read bytes' = .error (.json (.shape (.duplicateField field))) := by
  cases raw : readRaw bytes with
  | error fault =>
    rw [read, raw] at accepted
    cases accepted
  | ok raws =>
    rw [read, raw] at accepted
    have readable := readable_of_readRaw wellFormed text raw
    have outcome : tableObject.outcome (table.map TableMember.pair) = .ok raws := by
      rw [← raw]
      exact (readRaw_of_spaced
        (List.forall_mem_map.mpr fun m member => (readable m member).pair) text).symm
    refine ⟨fun members bytes' rearranged text' => ?_, fun field members bytes' lacks text' => ?_,
      fun field members bytes' doubles text' => ?_⟩
    · obtain ⟨readable, outcome⟩ := outcome_rearranged rearranged readable outcome
      rw [read, readRaw_of_spaced readable text', outcome]
      exact accepted
    · obtain ⟨readable, outcome⟩ := outcome_inOneObject
        (fun _ => ObjectReader.outcome_lacks) lacks readable outcome
      rw [read, readRaw_of_spaced readable text', outcome]
    · obtain ⟨readable, outcome⟩ := outcome_inOneObject
        (fun _ => ObjectReader.outcome_doubles) doubles readable outcome
      rw [read, readRaw_of_spaced readable text', outcome]

def entry (key : String) (value : List Token) : Pair := ⟨(Text.encode key).map .byte, value⟩

def greek : Run := ⟨945, 25, .identifierStart, by decide, by decide, by decide⟩

def greekFields : List Pair :=
  [entry "code_point" [numeral 945], entry "length" [numeral 25],
    entry "rule" [quoted "identifier_start"]]

def note : Pair := entry "note" (listTokens [objectTokens []])

def tableOf (fields : List Pair) : List TableMember :=
  [.runs ((Text.encode "runs").map .byte) [fields]]

def tableText (members : String) : List UInt8 :=
  Text.encode ("\x7b\"runs\":[\x7b" ++ members ++ "\x7d]\x7d")

/-- The members of a document of one run, from the last to the first, among others and with more
spaces; then the document without the length of the run, and with its length at both ends. -/
theorem read_rearranged_greek :
    read (tableText "\"code_point\":945,\"length\":25,\"rule\":\"identifier_start\"") =
      .ok [greek] ∧
    read (Text.encode (" \x7b \"length\" : null , \"runs\" : [ \x7b \"note\" : [ \x7b \x7d ] ," ++
      " \"rule\" : \"identifier_start\" , \"length\" : 25 , \"code_point\" : 945 \x7d ] \x7d")) =
      .ok [greek] ∧
    read (tableText "\"code_point\":945,\"rule\":\"identifier_start\"") =
      .error (.json (.shape (.missingField "length"))) ∧
    read (tableText
      "\"length\":25,\"code_point\":945,\"length\":25,\"rule\":\"identifier_start\"") =
      .error (.json (.shape (.duplicateField "length"))) := by
  have wellFormed : ∀ m ∈ tableOf greekFields, m.WellFormed := by
    refine List.forall_mem_singleton.mpr ⟨content_quoted "runs", List.forall_mem_singleton.mpr ?_⟩
    exact List.forall_mem_cons.mpr ⟨.number _, List.forall_mem_cons.mpr
      ⟨.number _, List.forall_mem_singleton.mpr (.string _)⟩⟩
  have text : Spaced (objectTokens ((tableOf greekFields).map TableMember.pair))
      (tableText "\"code_point\":945,\"length\":25,\"rule\":\"identifier_start\"") :=
    spaced_spelling rfl [] rfl
  have accepted : read (tableText
      "\"code_point\":945,\"length\":25,\"rule\":\"identifier_start\"") = .ok [greek] := by
    have values : ∀ p ∈ (tableOf greekFields).map TableMember.pair, IsValue p.value :=
      List.forall_mem_map.mpr fun m member => (wellFormed m member).isValue
    have tokens : _ = tableTokens [greek.raw] := tokens_of_spaced values text
    rw [read, readRaw, tokens, readTable_tableTokens (by decide)]
    exact mapM_check_raw [greek]
  have further : Extends runFields greekFields (note :: greekFields.reverse) := by
    have isValue : IsValue note.value :=
      .list _ (List.forall_mem_singleton.mpr (.object [] (List.forall_mem_nil _)))
    refine ⟨[note], List.forall_mem_singleton.mpr ⟨isValue, "note", ?_, by decide⟩, ?_⟩
    · exact content_quoted "note"
    · exact ((List.reverse_perm _).cons note).trans (List.perm_append_singleton note _).symm
  have rearranged : Rearranged (tableOf greekFields)
      (entry "length" [.literal .null none] ::
        (tableOf (note :: greekFields.reverse)).map TableMember.pair) := by
    refine ⟨_, .cons (.runs _ (.cons further .nil)) .nil, [entry "length" [.literal .null none]],
      List.forall_mem_singleton.mpr ⟨.literal _, "length", ?_, by decide⟩, ?_⟩
    · exact content_quoted "length"
    · exact (List.perm_append_singleton _ _).symm
  have lacks : Lacks "length" greekFields
      [entry "code_point" [numeral 945], entry "rule" [quoted "identifier_start"]] :=
    @Lacks.intro _ [_] _ [_] (content_quoted "length")
  have doubles : Doubles "length" greekFields (entry "length" [numeral 25] :: greekFields) :=
    @Doubles.intro _ [] (entry "length" [numeral 25]) _ greekFields (by decide)
      (content_quoted "length") (content_quoted "length") rfl
  have inRun {change : String → List Pair → List Pair → Prop} {fields : List Pair}
      (changed : change "length" greekFields fields) : InOneObject change "length"
        (tableOf greekFields) ((tableOf fields).map TableMember.pair) :=
    @InOneObject.run change "length" [] _ [] _ _ [] [] (by decide) changed
  obtain ⟨same, lacking, doubled⟩ := read_rearranged wellFormed text accepted
  exact ⟨accepted, same _ _ rearranged (spaced_spelling rfl [0x20] rfl),
    lacking _ _ _ (inRun lacks) (spaced_spelling rfl [] rfl),
    doubled _ _ _ (inRun doubles) (spaced_spelling rfl [] rfl)⟩

end LexicalRuns.Artifact.Document
