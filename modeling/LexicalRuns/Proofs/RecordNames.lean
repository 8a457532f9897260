import LexicalRuns.Proofs.CharacterData
import LexicalRuns.Proofs.EncodedText
import LexicalRuns.Proofs.HexNumerals
import LexicalRuns.Proofs.Overrides

/-! Names of records. A name comes from one line of the character data or from an override, so that
it stays within a line wherever it is written. -/
namespace LexicalRuns

namespace Text

def InLine (text : String) : Prop := '\n' ∉ text.toList

theorem inLine_append {a b : String} : InLine (a ++ b) ↔ InLine a ∧ InLine b := by
  simp only [InLine, String.toList_append, List.mem_append, not_or]

theorem inLine_ofList {text : List Char} : InLine (String.ofList text) ↔ '\n' ∉ text := by
  rw [InLine, String.toList_ofList]

theorem not_mem_encode_iff {text : String} : lineFeed ∉ encode text ↔ InLine text :=
  not_congr (lineFeed_mem_encode_iff text)

instance (text : String) : Decidable (InLine text) := decidable_of_iff _ not_mem_encode_iff

theorem Hex.inLine_digits {write : Nat → Char} (plain : ∀ d < 16, write d ≠ '\n')
    (width n : Nat) : InLine (String.ofList ((digits width n).map write)) := by
  rw [inLine_ofList, List.mem_map]
  rintro ⟨d, member, isLineFeed⟩
  exact plain d (digits_lt width n d member) isLineFeed

theorem Hex.inLine_lower (width n : Nat) : InLine (lower width n) := inLine_digits (by decide) _ n

theorem Hex.inLine_upper (width n : Nat) : InLine (upper width n) := inLine_digits (by decide) _ n

theorem inLine_toString (n : Nat) : InLine (toString n) := by
  rw [Nat.toString_eq_ofList_toDigits, inLine_ofList]
  intro member
  exact absurd (Nat.isDigit_of_mem_toDigits (by decide) (by decide) member) (by decide)

end Text

namespace UnicodeData

theorem Shows.field_subset {text : List Char} {e : Entry} (shows : Shows text e) :
    e.naming.field ⊆ text := by
  obtain ⟨point, more, fields, _⟩ := shows.fields
  have whole : [';'].intercalate (text.splitOn ';') = text := List.intercalate_splitOn ';'
  rw [fields, List.intercalate_cons_cons, List.intercalate_cons_cons] at whole
  intro c member
  rw [← whole]
  simp [member]

theorem Says.field_subset {line : String} {e : Entry} (told : Says line (some e)) :
    e.naming.field ⊆ line.toList := by
  cases told with
  | entry trims _ shows =>
    obtain ⟨before, after, whole, _⟩ := trims.around
    rw [whole]
    intro c member
    simp [shows.field_subset member]

theorem Carries.inLine {lines : List (List UInt8)} {es : List Entry} (carries : Carries lines es)
    (plain : ∀ line ∈ lines, Text.lineFeed ∉ line) : ∀ e ∈ es, '\n' ∉ e.naming.field := by
  induction lines generalizing es with
  | nil =>
    rw [carries_nil_iff.mp carries]
    exact List.forall_mem_nil _
  | cons line rest ih =>
    obtain ⟨here, later⟩ := List.forall_mem_cons.mp plain
    rcases (carries_cons_iff 0).mp carries with ⟨_, others⟩ | ⟨e, es, read, rfl, others⟩
    · exact ih others later
    · obtain ⟨text, rfl, told⟩ := readLine_eq_ok_iff.mp read
      have inText : '\n' ∉ text.toList := Text.not_mem_encode_iff.mp here
      refine List.forall_mem_cons.mpr ⟨fun member => ?_, ih others later⟩
      exact inText (told.field_subset member)

theorem Assignment.inLine_record? {a : Assignment} (plain : ∀ e ∈ a.entries, '\n' ∉ e.naming.field)
    {c : Nat} {record : Record} (written : a.record? c = some record) : Text.InLine record.name := by
  cases a with
  | single d name category =>
    simp only [record?] at written
    split at written
    next =>
      cases written
      exact plain _ List.mem_cons_self
    next => cases written
  | range first last block category lastCategory =>
    simp only [record?] at written
    split at written
    next =>
      cases written
      have inBlock : Text.InLine block := fun member => plain _ List.mem_cons_self
        (List.mem_cons_of_mem _ (List.mem_append_left _ member))
      exact Text.inLine_append.mpr
        ⟨Text.inLine_append.mpr ⟨inBlock, by decide⟩, Text.Hex.inLine_upper 4 c⟩
    next => cases written

end UnicodeData

namespace Database

def InLine (db : Database) : Prop :=
  ∀ (c : Nat) (record : Record), db[c]? = some record → Text.InLine record.name

theorem inLine_of_read {bytes : List UInt8} {db : Database}
    (accepted : UnicodeData.read bytes = .ok db) : db.InLine := by
  obtain ⟨as, describes, rfl⟩ := (UnicodeData.read_eq_ok_iff bytes db).mp accepted
  intro c record found
  rw [UnicodeData.Assignment.getElem?_foldl_write, Std.ExtTreeMap.getElem?_empty, Option.or_none]
    at found
  obtain ⟨a, member, written⟩ := List.mem_filterMap.mp (List.mem_of_getLast? found)
  have plain := describes.carries.inLine fun line => Text.not_mem_of_mem_lines
  exact a.inLine_record? (fun e inEntries => plain e (List.mem_flatMap_of_mem member inEntries))
    written

/-- An override keeps the name, or gives its own. -/
theorem InLine.patch {db : Database} (names : db.InLine) (o : Override) :
    (Override.patch db o).InLine := by
  intro c record found
  rw [Override.getElem?_patch] at found
  split at found
  next =>
    cases found
    cases before : db[o.codePoint]? with
    | none => simp only [Override.patched, before]; decide
    | some record => simp only [Override.patched, before]; exact names _ _ before
  next => exact names c record found

theorem InLine.applyOverrides {db patched : Database} (names : db.InLine)
    (applied : db.applyOverrides = .ok patched) : patched.InLine := by
  rw [applyOverrides_eq_ok] at applied
  cases applied
  generalize Override.all = overrides
  induction overrides generalizing db with
  | nil => exact names
  | cons o rest ih => exact ih (names.patch o)

end Database

end LexicalRuns
