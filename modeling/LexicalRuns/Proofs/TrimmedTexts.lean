import LexicalRuns.Text.Blank

/-! White space around a text. What is left without it starts and ends with other characters, and
there is nothing else that could be left. -/
namespace LexicalRuns.Text

/-- The characters with the property White_Space. -/
def whiteSpace : List Char := [
  '\t', '\n', '\x0b', '\x0c', '\r', ' ', '\x85', '\xa0', '\u1680', '\u2000', '\u2001', '\u2002',
  '\u2003', '\u2004', '\u2005', '\u2006', '\u2007', '\u2008', '\u2009', '\u200a', '\u2028', '\u2029',
  '\u202f', '\u205f', '\u3000']

theorem isBlank_iff {c : Char} : isBlank c = true ↔ c ∈ whiteSpace := by
  have numbers : whiteSpace.map Char.toNat = [0x09, 0x0A, 0x0B, 0x0C, 0x0D, 0x20, 0x85, 0xA0, 0x1680,
    0x2000, 0x2001, 0x2002, 0x2003, 0x2004, 0x2005, 0x2006, 0x2007, 0x2008, 0x2009, 0x200A, 0x2028,
    0x2029, 0x202F, 0x205F, 0x3000] := rfl
  have member : c ∈ whiteSpace ↔ c.toNat ∈ whiteSpace.map Char.toNat := by
    refine ⟨List.mem_map_of_mem, fun found => ?_⟩
    obtain ⟨d, there, same⟩ := List.mem_map.mp found
    exact Char.toNat_inj.mp same ▸ there
  rw [member, numbers]
  simp only [isBlank, Bool.or_eq_true, Bool.and_eq_true, decide_eq_true_eq, beq_iff_eq,
    List.mem_cons, List.not_mem_nil, or_false]
  omega

theorem not_mem_whiteSpace_iff {c : Char} : c ∉ whiteSpace ↔ isBlank c = false := by
  rw [← isBlank_iff, Bool.not_eq_true]

theorem takeWhile_isBlank_subset (text : List Char) : text.takeWhile isBlank ⊆ whiteSpace :=
  fun c member => isBlank_iff.mp (List.all_eq_true.mp List.all_takeWhile c member)

theorem head?_dropWhile_isBlank {text : List Char} {c : Char}
    (starts : c ∈ (text.dropWhile isBlank).head?) : c ∉ whiteSpace := by
  have visible := List.head?_dropWhile_not isBlank text
  rw [Option.mem_def.mp starts] at visible
  exact not_mem_whiteSpace_iff.mpr visible

/-- The text without the white space at its ends. -/
structure Trims (text inner : List Char) : Prop where
  around : ∃ before after, text = before ++ inner ++ after ∧ before ⊆ whiteSpace ∧
    after ⊆ whiteSpace
  first : ∀ c ∈ inner.head?, c ∉ whiteSpace
  last : ∀ c ∈ inner.getLast?, c ∉ whiteSpace

theorem trims_trim (text : List Char) : Trims text (trim text) := by
  have front := List.takeWhile_append_dropWhile (p := isBlank) (l := text)
  have back : trim text ++ ((text.dropWhile isBlank).reverse.takeWhile isBlank).reverse =
      text.dropWhile isBlank := by
    rw [trim, ← List.reverse_append, List.takeWhile_append_dropWhile, List.reverse_reverse]
  constructor
  · refine ⟨_, ((text.dropWhile isBlank).reverse.takeWhile isBlank).reverse, ?_,
      takeWhile_isBlank_subset text, fun c member => ?_⟩
    · rw [List.append_assoc, back, front]
    · exact takeWhile_isBlank_subset _ (List.mem_reverse.mp member)
  · intro c starts
    have begins : c ∈ (text.dropWhile isBlank).head? := by
      rw [← back, List.head?_append, Option.mem_def.mp starts]
      rfl
    exact head?_dropWhile_isBlank begins
  · intro c ends
    rw [trim, List.getLast?_reverse] at ends
    exact head?_dropWhile_isBlank ends

theorem Trims.trim_eq {text inner : List Char} (trims : Trims text inner) : trim text = inner := by
  obtain ⟨⟨before, after, rfl, blankBefore, blankAfter⟩, first, last⟩ := trims
  have dropBefore (rest : List Char) :
      (before ++ rest).dropWhile isBlank = rest.dropWhile isBlank :=
    List.dropWhile_append_of_pos fun c member => isBlank_iff.mpr (blankBefore member)
  have dropAfter (rest : List Char) :
      (after.reverse ++ rest).dropWhile isBlank = rest.dropWhile isBlank :=
    List.dropWhile_append_of_pos fun c member =>
      isBlank_iff.mpr (blankAfter (List.mem_reverse.mp member))
  cases inner with
  | nil =>
    have gone : (after ++ []).dropWhile isBlank = [].dropWhile isBlank :=
      List.dropWhile_append_of_pos fun c member => isBlank_iff.mpr (blankAfter member)
    rw [List.append_nil] at gone
    rw [trim, List.append_nil, dropBefore, gone]
    rfl
  | cons c rest =>
    -- the first character stops the pass from the left, the last one that from the right
    have visible : ¬isBlank c = true := fun blank => first c rfl (isBlank_iff.mp blank)
    obtain ⟨front, d, ends⟩ : ∃ front d, c :: rest = front ++ [d] :=
      ⟨_, _, (List.dropLast_concat_getLast (List.cons_ne_nil c rest)).symm⟩
    have shown : ¬isBlank d = true := fun blank =>
      last d (by rw [ends, List.getLast?_concat]; rfl)
        (isBlank_iff.mp blank)
    rw [trim, List.append_assoc, dropBefore, List.cons_append, List.dropWhile_cons_of_neg visible,
      ← List.cons_append, List.reverse_append, dropAfter, ends,
      List.reverse_append, List.reverse_singleton, List.singleton_append,
      List.dropWhile_cons_of_neg shown, List.reverse_cons, List.reverse_reverse]

theorem Trims.padded {text inner before after : List Char} (trims : Trims text inner)
    (blankBefore : before ⊆ whiteSpace) (blankAfter : after ⊆ whiteSpace) :
    Trims (before ++ text ++ after) inner := by
  obtain ⟨⟨front, back, rfl, blankFront, blankBack⟩, first, last⟩ := trims
  refine ⟨⟨before ++ front, back ++ after, by simp, ?_, ?_⟩, first, last⟩
  · exact List.append_subset.mpr ⟨blankBefore, blankFront⟩
  · exact List.append_subset.mpr ⟨blankBack, blankAfter⟩

theorem trim_append {before after : List Char} (blankBefore : before ⊆ whiteSpace)
    (blankAfter : after ⊆ whiteSpace) (text : List Char) :
    trim (before ++ text ++ after) = trim text :=
  ((trims_trim text).padded blankBefore blankAfter).trim_eq

/-- What starts with another character than white space keeps it. -/
theorem Trims.head?_eq {c : Char} {rest inner : List Char} (trims : Trims (c :: rest) inner)
    (visible : c ∉ whiteSpace) : inner.head? = some c := by
  obtain ⟨⟨before, after, whole, blankBefore, blankAfter⟩, _, _⟩ := trims
  match before, inner with
  | d :: _, _ =>
    obtain ⟨rfl, _⟩ := List.cons.inj whole
    exact absurd (blankBefore List.mem_cons_self) visible
  | [], d :: _ =>
    obtain ⟨rfl, _⟩ := List.cons.inj whole
    rfl
  | [], [] =>
    have last : c :: rest = after := whole
    exact absurd (blankAfter (last ▸ List.mem_cons_self)) visible

end LexicalRuns.Text
