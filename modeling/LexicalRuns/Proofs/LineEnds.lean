import LexicalRuns.Proofs.EncodedText
import LexicalRuns.Proofs.TrimmedTexts
import LexicalRuns.UnicodeData.Entry
import Mathlib.Data.List.DropRight

/-! Ends of lines. A carriage return in front of a line feed belongs to the end of a line and not to
its text. It is white space and a byte of its own, so that a line is read alike with and without it. -/
namespace LexicalRuns

namespace Text

def carriageReturn : UInt8 := 13

/-- A line without the carriage returns at its end. -/
def bare (line : List UInt8) : List UInt8 := line.rdropWhile (· == carriageReturn)

/-- Lines that differ in carriage returns at their ends only. -/
def SameLines (xs ys : List (List UInt8)) : Prop := xs.map bare = ys.map bare

theorem bare_concat (line : List UInt8) (b : UInt8) :
    bare (line ++ [b]) = if b = carriageReturn then bare line else line ++ [b] := by
  simp only [bare, List.rdropWhile_concat, beq_iff_eq]

theorem carriageReturn_mem_utf8EncodeChar_iff (c : Char) :
    carriageReturn ∈ String.utf8EncodeChar c ↔ c = '\r' := by
  rw [mem_utf8EncodeChar_iff (by decide), Char.ext_iff, ← UInt32.toNat_inj]
  rfl

/-- No other character ends in the byte of a carriage return. -/
theorem exists_concat_of_encode {text : String} {bytes : List UInt8}
    (whole : bytes ++ [carriageReturn] = encode text) :
    ∃ front, bytes = encode front ∧ front ++ "\r" = text := by
  rw [encode_eq_flatMap] at whole
  cases characters : text.toList using List.reverseRecOn with
  | nil => simp [characters] at whole
  | append_singleton front c _ =>
    rw [characters, List.flatMap_append, List.flatMap_singleton] at whole
    have nonempty : String.utf8EncodeChar c ≠ [] := by
      apply List.ne_nil_of_length_pos
      rw [String.length_utf8EncodeChar]
      exact c.utf8Size_pos
    have last := congrArg List.getLast? whole
    rw [List.getLast?_concat, List.getLast?_append_of_ne_nil _ nonempty] at last
    obtain rfl := (carriageReturn_mem_utf8EncodeChar_iff c).mp (List.mem_of_getLast? last.symm)
    refine ⟨String.ofList front, ?_, ?_⟩
    · rw [encode_eq_flatMap, String.toList_ofList]
      exact List.append_cancel_right whole
    · apply String.toList_injective
      rw [String.toList_append, String.toList_ofList, characters]
      rfl

theorem decode?_concat_carriageReturn (bytes : List UInt8) :
    decode? (bytes ++ [carriageReturn]) = (decode? bytes).map (· ++ "\r") := by
  apply Option.ext
  intro text
  simp only [Option.map_eq_some_iff, decode?_eq_some_iff]
  constructor
  · exact exists_concat_of_encode
  · rintro ⟨front, rfl, rfl⟩
    exact (encode_append front "\r").symm

end Text

namespace UnicodeData

theorem readLine_concat_carriageReturn (number : Nat) (line : List UInt8) :
    readLine number (line ++ [Text.carriageReturn]) = readLine number line := by
  unfold readLine
  rw [Text.decode?_concat_carriageReturn]
  cases Text.decode? line with
  | none => rfl
  | some text =>
    have trimmed : Text.trim (text ++ "\r").toList = Text.trim text.toList := by
      rw [String.toList_append]
      exact Text.trim_append (List.nil_subset _) (by decide) text.toList
    simp only [Option.map_some, Entry.ofLine?, trimmed]

theorem readLine_bare (number : Nat) (line : List UInt8) :
    readLine number (Text.bare line) = readLine number line := by
  induction line using List.reverseRecOn with
  | nil => rfl
  | append_singleton front b ih =>
    rw [Text.bare_concat]
    split
    next isReturn => rw [ih, isReturn, readLine_concat_carriageReturn]
    next => rfl

end UnicodeData

end LexicalRuns
