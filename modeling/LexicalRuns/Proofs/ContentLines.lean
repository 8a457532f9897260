import LexicalRuns.Proofs.HexNumerals
import LexicalRuns.Proofs.TrimmedTexts
import LexicalRuns.UnicodeData.Entry

/-! What content lines say. A line is read as an entry if and only if its fields are those of the
entry: a numeral for the code point, the name or the mark of a range, and the code of the category.
No line can be read as two entries. -/
namespace LexicalRuns

theorem Category.ofCode?_eq_some_iff {text : String} {k : Category} :
    ofCode? text = some k ↔ text = k.code := by
  constructor
  · intro found
    have same := List.find?_some found
    exact (of_decide_eq_true same).symm
  · rintro rfl
    exact ofCode?_code k

namespace UnicodeData

def Naming.field : Naming → List Char
  | .single name => name.toList
  | .first block => '<' :: block.toList ++ firstEnding
  | .last block => '<' :: block.toList ++ lastEnding

/-- The name of a single entry is no mark of a range. -/
def Naming.Proper : Naming → Prop
  | .single name => ∀ block, name.toList ≠ (first block).field ∧ name.toList ≠ (last block).field
  | _ => True

structure Shows (text : List Char) (e : Entry) : Prop where
  fields : ∃ point more, text.splitOn ';' =
      point :: e.naming.field :: e.category.code.toList :: more ∧
    Text.Hex.Denotes point e.codePoint
  inside : e.codePoint ≤ CodePoint.last
  proper : e.naming.Proper

theorem before?_eq_some_iff {ending text block : List Char} :
    before? ending text = some block ↔ text = block ++ ending := by
  unfold before?
  split
  next isEnding =>
    obtain ⟨front, rfl⟩ := List.isSuffixOf_iff_suffix.mp isEnding
    simp [eq_comm]
  next other =>
    refine ⟨nofun, ?_⟩
    rintro rfl
    exact absurd (List.isSuffixOf_iff_suffix.mpr (List.suffix_append block ending)) other

theorem before?_eq_none_iff {ending text : List Char} :
    before? ending text = none ↔ ∀ block, text ≠ block ++ ending := by
  simp only [Option.eq_none_iff_forall_not_mem, Option.mem_def, before?_eq_some_iff]

/-- The endings differ in the fourth letter from the right. -/
theorem append_firstEnding_ne (a b : List Char) : a ++ firstEnding ≠ b ++ lastEnding := by
  intro same
  have reversed := congrArg List.reverse same
  simp [firstEnding, lastEnding] at reversed

namespace Naming

theorem proper_single_iff {name : String} :
    (single name).Proper ↔ ∀ rest, name.toList = '<' :: rest →
      before? firstEnding rest = none ∧ before? lastEnding rest = none := by
  simp only [before?_eq_none_iff]
  constructor
  · rintro proper rest start
    constructor
    · rintro block rfl
      exact (proper (String.ofList block)).1 (by simp [start, field])
    · rintro block rfl
      exact (proper (String.ofList block)).2 (by simp [start, field])
  · intro plain block
    constructor
    · intro same
      exact (plain _ same).1 block.toList rfl
    · intro same
      exact (plain _ same).2 block.toList rfl

theorem ofField_field {n : Naming} (proper : n.Proper) : ofField n.field = n := by
  cases n with
  | single name =>
    rw [proper_single_iff] at proper
    unfold ofField field
    split
    next rest start =>
      obtain ⟨notFirst, notLast⟩ := proper rest start
      simp only [notFirst, notLast, String.ofList_toList]
    next => rw [String.ofList_toList]
  | first block =>
    have found : before? firstEnding (block.toList ++ firstEnding) = some block.toList :=
      before?_eq_some_iff.mpr rfl
    simp only [field, List.cons_append, ofField, found, String.ofList_toList]
  | last block =>
    have notFirst : before? firstEnding (block.toList ++ lastEnding) = none :=
      before?_eq_none_iff.mpr fun other => (append_firstEnding_ne other block.toList).symm
    have found : before? lastEnding (block.toList ++ lastEnding) = some block.toList :=
      before?_eq_some_iff.mpr rfl
    simp only [field, List.cons_append, ofField, notFirst, found, String.ofList_toList]

theorem field_ofField (name : List Char) :
    (ofField name).field = name ∧ (ofField name).Proper := by
  unfold ofField
  split
  next rest =>
    split
    next block _ isFirst =>
      rw [before?_eq_some_iff] at isFirst
      exact ⟨by simp [field, isFirst], trivial⟩
    next block _ isLast =>
      rw [before?_eq_some_iff] at isLast
      exact ⟨by simp [field, isLast], trivial⟩
    next notFirst notLast =>
      refine ⟨by simp [field], proper_single_iff.mpr fun other start => ?_⟩
      rw [String.toList_ofList] at start
      cases start
      exact ⟨notFirst, notLast⟩
  next other =>
    refine ⟨by simp [field], proper_single_iff.mpr fun rest start => ?_⟩
    rw [String.toList_ofList] at start
    exact absurd start (other rest)

theorem ofField_eq_iff {name : List Char} {n : Naming} :
    ofField name = n ↔ n.field = name ∧ n.Proper := by
  constructor
  · rintro rfl
    exact field_ofField name
  · rintro ⟨rfl, proper⟩
    exact ofField_field proper

end Naming

namespace Entry

theorem ofFields_cons_eq_ok_iff {point name category : List Char} {more : List (List Char)}
    {e : Entry} :
    ofFields (point :: name :: category :: more) = .ok e ↔
      Text.Hex.Denotes point e.codePoint ∧ e.codePoint ≤ CodePoint.last ∧
        (e.naming.field = name ∧ e.naming.Proper) ∧ category = e.category.code.toList := by
  have code : category = e.category.code.toList ↔
      Category.ofCode? (String.ofList category) = some e.category := by
    rw [Category.ofCode?_eq_some_iff]
    constructor
    · rintro rfl
      exact String.ofList_toList
    · intro same
      rw [← same, String.toList_ofList]
  rw [code, ← Naming.ofField_eq_iff, ← Text.Hex.read_eq_ok_iff]
  simp only [ofFields]
  cases Text.Hex.read point with
  | error cause => simp
  | ok c =>
    by_cases beyond : CodePoint.last < c
    · simp only [if_pos beyond, Except.ok.injEq]
      refine ⟨nofun, ?_⟩
      rintro ⟨rfl, inside, _⟩
      exact absurd beyond (Nat.not_lt.mpr inside)
    · simp only [if_neg beyond, Except.ok.injEq]
      cases Category.ofCode? (String.ofList category) with
      | none => simp
      | some k =>
        simp only [Except.ok.injEq, Option.some.injEq]
        constructor
        · rintro rfl
          exact ⟨rfl, Nat.le_of_not_lt beyond, rfl, rfl⟩
        · rintro ⟨rfl, _, naming, rfl⟩
          rw [naming]

theorem ofFields_eq_ok_iff {text : List Char} {e : Entry} :
    ofFields (text.splitOn ';') = .ok e ↔ Shows text e := by
  constructor
  · intro read
    match fields : text.splitOn ';' with
    | [] | [_] | [_, _] => simp [fields, ofFields] at read
    | point :: name :: category :: more =>
      rw [fields, ofFields_cons_eq_ok_iff] at read
      obtain ⟨denotes, inside, ⟨rfl, proper⟩, rfl⟩ := read
      exact ⟨⟨point, more, fields, denotes⟩, inside, proper⟩
  · intro shows
    obtain ⟨point, more, fields, denotes⟩ := shows.fields
    rw [fields, ofFields_cons_eq_ok_iff]
    exact ⟨denotes, shows.inside, ⟨rfl, shows.proper⟩, rfl⟩

end Entry

theorem readLine_encode (number : Nat) (line : String) :
    readLine number (Text.encode line) = (Entry.ofLine? line).mapError (.line number) := by
  simp only [readLine, Text.decode?_encode]

theorem exists_encode_of_readLine {number : Nat} {bytes : List UInt8} {entry : Option Entry}
    (read : readLine number bytes = .ok entry) : ∃ line, bytes = Text.encode line := by
  unfold readLine at read
  split at read
  next => cases read
  next line decoded => exact ⟨line, Text.decode?_eq_some_iff.mp decoded⟩

/-- What a line says when the white space around it is gone: nothing if it is empty or a comment,
and otherwise an entry. -/
inductive Says (line : String) : Option Entry → Prop where
  | nothing {inner : List Char} (trims : Text.Trims line.toList inner)
      (idle : inner = [] ∨ inner.head? = some '#') : Says line none
  | entry {inner : List Char} {e : Entry} (trims : Text.Trims line.toList inner)
      (noComment : inner.head? ≠ some '#') (shows : Shows inner e) : Says line (some e)

theorem hasContent_eq_false_iff {inner : List Char} :
    hasContent inner = false ↔ inner = [] ∨ inner.head? = some '#' := by
  cases inner <;> simp [hasContent]

theorem Shows.ne_nil {text : List Char} {e : Entry} (shows : Shows text e) : text ≠ [] := by
  rintro rfl
  obtain ⟨_, _, fields, _⟩ := shows.fields
  rw [List.splitOn_nil] at fields
  cases fields

theorem ofLine?_eq_ok_iff {line : String} {said : Option Entry} :
    Entry.ofLine? line = .ok said ↔ Says line said := by
  simp only [Entry.ofLine?]
  constructor
  · intro read
    have trims := Text.trims_trim line.toList
    split at read
    next content =>
      match fields : Entry.ofFields ((Text.trim line.toList).splitOn ';') with
      | .error fault => simp [fields, Except.map] at read
      | .ok e =>
        rw [fields] at read
        cases read
        refine .entry trims (fun comment => ?_) (Entry.ofFields_eq_ok_iff.mp fields)
        rw [hasContent_eq_false_iff.mpr (.inr comment)] at content
        cases content
    next idle =>
      cases read
      exact .nothing trims (hasContent_eq_false_iff.mp (Bool.eq_false_iff.mpr idle))
  · intro told
    cases told with
    | nothing trims idle =>
      simp only [trims.trim_eq, hasContent_eq_false_iff.mpr idle, Bool.false_eq_true, if_false]
    | entry trims noComment shows =>
      have content : hasContent (Text.trim line.toList) = true := by
        by_contra idle
        rw [trims.trim_eq, Bool.not_eq_true, hasContent_eq_false_iff] at idle
        exact idle.elim shows.ne_nil noComment
      rw [if_pos content, trims.trim_eq, Entry.ofFields_eq_ok_iff.mpr shows]
      rfl

theorem readLine_eq_ok_iff {number : Nat} {bytes : List UInt8} {said : Option Entry} :
    readLine number bytes = .ok said ↔ ∃ line, bytes = Text.encode line ∧ Says line said := by
  simp only [← ofLine?_eq_ok_iff]
  constructor
  · intro read
    obtain ⟨line, rfl⟩ := exists_encode_of_readLine read
    refine ⟨line, rfl, ?_⟩
    rw [readLine_encode] at read
    cases told : Entry.ofLine? line with
    | error fault =>
      rw [told] at read
      cases read
    | ok e =>
      rw [told] at read
      cases read
      rfl
  · rintro ⟨line, rfl, told⟩
    rw [readLine_encode, told]
    rfl

end UnicodeData

end LexicalRuns
