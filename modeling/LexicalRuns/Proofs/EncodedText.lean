import LexicalRuns.Text.Lines
import LexicalRuns.Text.Utf8

/-! Text and its bytes. The bytes of a text are those of its characters, one after the other. A line
feed is a byte of its own and no part of another character, so that the lines of a text are found in
its bytes. -/
namespace LexicalRuns.Text

theorem encode_eq_flatMap (text : String) :
    encode text = text.toList.flatMap String.utf8EncodeChar := by
  have bytes : text.toByteArray = (text.toList.flatMap String.utf8EncodeChar).toByteArray :=
    String.utf8Encode_toList.symm
  rw [encode, String.toUTF8_eq_toByteArray, bytes, List.toList_data_toByteArray]

theorem encode_append (a b : String) : encode (a ++ b) = encode a ++ encode b := by
  simp only [encode_eq_flatMap, String.toList_append, List.flatMap_append]

theorem encode_join (texts : List String) : encode (String.join texts) = texts.flatMap encode := by
  induction texts with
  | nil => rfl
  | cons text rest ih => rw [String.join_cons, encode_append, ih, List.flatMap_cons]

/-! ### Line feeds -/

theorem eq_ofNat_iff (b : UInt8) (n : Nat) : b = UInt8.ofNat n ↔ n % 256 = b.toNat := by
  rw [← UInt8.toNat_inj, UInt8.toNat_ofNat', eq_comm]

/-- A byte below 128 is a character of its own; those of the others are greater. -/
theorem mem_utf8EncodeChar_iff {b : UInt8} (small : b.toNat < 128) (c : Char) :
    b ∈ String.utf8EncodeChar c ↔ c.val.toNat = b.toNat := by
  fun_cases String.utf8EncodeChar c with
  | case1 v single =>
    simp only [List.mem_singleton, eq_ofNat_iff]
    omega
  | case2 v large two =>
    simp only [List.mem_cons, List.not_mem_nil, or_false, eq_ofNat_iff]
    omega
  | case3 v large larger three =>
    simp only [List.mem_cons, List.not_mem_nil, or_false, eq_ofNat_iff]
    omega
  | case4 v large larger largest =>
    simp only [List.mem_cons, List.not_mem_nil, or_false, eq_ofNat_iff]
    omega

theorem lineFeed_mem_utf8EncodeChar_iff (c : Char) :
    lineFeed ∈ String.utf8EncodeChar c ↔ c = '\n' := by
  rw [mem_utf8EncodeChar_iff (by decide), Char.ext_iff, ← UInt32.toNat_inj]
  rfl

theorem lineFeed_mem_encode_iff (text : String) : lineFeed ∈ encode text ↔ '\n' ∈ text.toList := by
  simp only [encode_eq_flatMap, List.mem_flatMap, lineFeed_mem_utf8EncodeChar_iff, exists_eq_right]

/-! ### Separators -/

/-- The first of several separators is the end of what has none. -/
theorem eq_of_append_cons {α : Type} [BEq α] [LawfulBEq α] {mark : α} {a b before after : List α}
    (first : mark ∉ a) (second : mark ∉ b) (same : a ++ mark :: before = b ++ mark :: after) :
    a = b ∧ before = after := by
  have pieces := congrArg (List.splitOn mark) same
  rw [List.splitOn_append_cons_self_of_not_mem first,
    List.splitOn_append_cons_self_of_not_mem second] at pieces
  obtain ⟨rfl, _⟩ := List.cons.inj pieces
  exact ⟨rfl, (List.cons.inj (List.append_cancel_left same)).2⟩

/-! ### Lines -/

theorem not_mem_of_mem_splitOn {bytes piece : List UInt8} (member : piece ∈ bytes.splitOn lineFeed) :
    lineFeed ∉ piece := by
  induction bytes generalizing piece with
  | nil =>
    rw [List.splitOn_nil, List.mem_singleton] at member
    subst member
    exact List.not_mem_nil
  | cons b rest ih =>
    rw [List.splitOn_cons_eq_if_modifyHead] at member
    split at member
    next =>
      rcases List.mem_cons.mp member with rfl | later
      · exact List.not_mem_nil
      · exact ih later
    next other =>
      obtain ⟨first, others, pieces⟩ := List.exists_cons_of_ne_nil (List.splitOn_ne_nil lineFeed rest)
      rw [pieces, List.modifyHead_cons] at member
      rw [pieces] at ih
      rcases List.mem_cons.mp member with rfl | later
      · have apart : lineFeed ≠ b := by
          rintro rfl
          exact other (beq_self_eq_true lineFeed)
        exact List.not_mem_cons_of_ne_of_not_mem apart (ih List.mem_cons_self)
      · exact ih (List.mem_cons_of_mem first later)

theorem not_mem_of_mem_lines {bytes line : List UInt8} (member : line ∈ lines bytes) :
    lineFeed ∉ line := by
  unfold lines at member
  simp only at member
  split at member
  · exact not_mem_of_mem_splitOn (List.dropLast_subset _ member)
  · exact not_mem_of_mem_splitOn member

theorem lines_append_lineFeed {line : List UInt8} (plain : lineFeed ∉ line) (rest : List UInt8) :
    lines (line ++ lineFeed :: rest) = line :: lines rest := by
  have pieces : (line ++ lineFeed :: rest).splitOn lineFeed = line :: rest.splitOn lineFeed :=
    List.splitOn_append_cons_self_of_not_mem plain rest
  obtain ⟨first, others, more⟩ := List.exists_cons_of_ne_nil (List.splitOn_ne_nil lineFeed rest)
  simp only [lines, pieces, more, List.getLast?_cons_cons, List.dropLast_cons_cons]
  split <;> rfl

/-- Lines that are ended by a line feed each are found again in front of any others. -/
theorem lines_flatMap_append (texts : List (List UInt8)) (plain : ∀ line ∈ texts, lineFeed ∉ line)
    (rest : List UInt8) : lines (texts.flatMap (· ++ [lineFeed]) ++ rest) = texts ++ lines rest := by
  induction texts with
  | nil => rfl
  | cons line others ih =>
    obtain ⟨here, later⟩ := List.forall_mem_cons.mp plain
    rw [List.flatMap_cons, List.append_assoc, List.append_assoc, List.singleton_append,
      lines_append_lineFeed here, ih later, List.cons_append]

theorem lines_flatMap (texts : List (List UInt8)) (plain : ∀ line ∈ texts, lineFeed ∉ line) :
    lines (texts.flatMap (· ++ [lineFeed])) = texts := by
  have alone := lines_flatMap_append texts plain []
  rwa [List.append_nil, show lines [] = [] from rfl, List.append_nil] at alone

/-- No bytes at all, or a line feed at their end. -/
def Ended (bytes : List UInt8) : Prop := bytes = [] ∨ bytes.getLast? = some lineFeed

/-- Every line has a line feed of its own, and there is nothing behind the last. -/
theorem Ended.exists_lines {bytes : List UInt8} (ended : Ended bytes) :
    ∃ texts : List (List UInt8), (∀ line ∈ texts, lineFeed ∉ line) ∧
      bytes = texts.flatMap (· ++ [lineFeed]) := by
  induction bytes with
  | nil => exact ⟨[], nofun, rfl⟩
  | cons b rest ih =>
    have later : Ended rest := by
      cases rest with
      | nil => exact .inl rfl
      | cons c rest =>
        rcases ended with empty | last
        · cases empty
        · exact .inr (by rwa [List.getLast?_cons_cons] at last)
    obtain ⟨texts, plain, rfl⟩ := ih later
    by_cases isLineFeed : b = lineFeed
    · subst isLineFeed
      exact ⟨[] :: texts, List.forall_mem_cons.mpr ⟨List.not_mem_nil, plain⟩, rfl⟩
    · cases texts with
      | nil =>
        rcases ended with empty | last
        · cases empty
        · exact absurd (Option.some.inj last) isLineFeed
      | cons line others =>
        obtain ⟨here, there⟩ := List.forall_mem_cons.mp plain
        have apart : lineFeed ∉ b :: line :=
          List.not_mem_cons_of_ne_of_not_mem (Ne.symm isLineFeed) here
        exact ⟨(b :: line) :: others, List.forall_mem_cons.mpr ⟨apart, there⟩, rfl⟩

theorem lines_append {a : List UInt8} (ended : Ended a) (b : List UInt8) :
    lines (a ++ b) = lines a ++ lines b := by
  obtain ⟨texts, plain, rfl⟩ := ended.exists_lines
  rw [lines_flatMap_append texts plain, lines_flatMap texts plain]

end LexicalRuns.Text
