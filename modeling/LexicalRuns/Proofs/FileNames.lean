import LexicalRuns.Artifact.Format
import LexicalRuns.Proofs.FileWrites

/-! Names of files and what they ask for. A path at which a file can be written ends in the name of
that file, so that its extension can be seen at the end of the path, and with it the format. -/
namespace LexicalRuns

namespace Path

/-- The name is what comes after the last slash. -/
structure EndsIn (path : String) (name : List Char) : Prop where
  within : '/' ∉ name
  behind : path.toList = name ∨ ∃ front, path.toList = front ++ '/' :: name

/-- The name at the end has something in front of its last dot, and the extension behind it. -/
def HasExtension (path extension : String) : Prop :=
  '.' ∉ extension.toList ∧ ∃ stem ≠ [], EndsIn path (stem ++ '.' :: extension.toList)

structure NamesFile (path : String) (name : List Char) : Prop where
  ends : EndsIn path name
  notTrivial : isTrivial name = false
  notUp : name ≠ ['.', '.']

theorem exists_endsIn (path : String) : ∃ name, EndsIn path name := by
  by_cases slash : '/' ∈ path.toList
  · obtain ⟨rest, front, whole, without⟩ :=
      List.eq_append_cons_of_mem (List.mem_reverse.mpr slash)
    refine ⟨rest.reverse, ⟨fun within => without (List.mem_reverse.mp within), .inr ?_⟩⟩
    exact ⟨front.reverse, by simp [← List.reverse_eq_iff.mpr whole.symm]⟩
  · exact ⟨path.toList, slash, .inl rfl⟩

theorem EndsIn.getLast?_splitOn {path : String} {name : List Char} (ends : EndsIn path name) :
    (path.toList.splitOn '/').getLast? = some name := by
  have alone := List.splitOn_eq_singleton ends.within
  rcases ends.behind with whole | ⟨front, whole⟩
  · rw [whole, alone, List.getLast?_singleton]
  · rw [whole, List.splitOn_append_cons_self, alone, List.getLast?_concat]

theorem EndsIn.unique {path : String} {name other : List Char} (first : EndsIn path name)
    (second : EndsIn path other) : name = other :=
  Option.some.inj (first.getLast?_splitOn.symm.trans second.getLast?_splitOn)

/-- The slash or dot that is taken off the front of a path is not its last piece. -/
theorem getLast?_parts {text : List Char} (notDot : text ≠ ['.']) :
    (parts text).2.getLast? = (text.splitOn '/').getLast? := by
  have behind (piece rest : List Char) :
      (piece :: rest.splitOn '/').getLast? = (rest.splitOn '/').getLast? := by
    obtain ⟨first, more, pieces⟩ := List.exists_cons_of_ne_nil (List.splitOn_ne_nil '/' rest)
    rw [pieces, List.getLast?_cons_cons]
  unfold parts
  split
  next rest => exact (behind [] rest).symm.trans (by rw [List.splitOn_cons_eq_if_modifyHead]; rfl)
  next => exact absurd rfl notDot
  next rest =>
    have pieces : ('.' :: '/' :: rest).splitOn '/' = ['.'] :: rest.splitOn '/' :=
      @List.splitOn_append_cons_self_of_not_mem _ ['.'] _ _ '/' (by decide) rest
    rw [pieces, behind, behind]
  next => rfl

theorem NamesFile.fileName?_eq {path : String} {name : List Char} (names : NamesFile path name) :
    fileName? path = some name := by
  have notDot : path.toList ≠ ['.'] := by
    intro dot
    have ends := names.ends.getLast?_splitOn
    rw [dot] at ends
    obtain rfl := Option.some.inj ends
    exact absurd names.notTrivial (by decide)
  obtain ⟨before, pieces⟩ :=
    List.getLast?_eq_some_iff.mp ((getLast?_parts notDot).trans names.ends.getLast?_splitOn)
  simp only [fileName?, pieces, List.reverse_append, List.reverse_singleton, List.singleton_append,
    List.dropWhile_cons, names.notTrivial, Bool.false_eq_true, if_false, List.head?_cons,
    if_neg names.notUp]

/-- The extension is what comes after the last dot, unless that dot is the first character. -/
theorem NamesFile.extension?_eq_some_iff {path extension : String} {name : List Char}
    (names : NamesFile path name) :
    extension? path = some extension ↔ HasExtension path extension := by
  simp only [extension?, names.fileName?_eq]
  constructor
  · intro found
    split at found
    next => cases found
    next => cases found
    next dot last before rest =>
      obtain rfl := Option.some.inj found
      have isDot : (dot != '.') = false := by
        have := List.head?_dropWhile_not (· != '.') name.reverse
        simpa only [rest, List.head?_cons] using this
      have whole := List.takeWhile_append_dropWhile (p := (· != '.')) (l := name.reverse)
      rw [rest, bne_eq_false_iff_eq.mp isDot] at whole
      refine ⟨?_, (last :: before).reverse, by simp, ?_⟩
      · rw [String.toList_ofList, List.mem_reverse]
        exact fun member => absurd (List.all_eq_true.mp List.all_takeWhile _ member) (by decide)
      · have name_eq := congrArg List.reverse whole
        rw [List.reverse_reverse, List.reverse_append, List.reverse_cons, List.append_assoc,
          List.singleton_append] at name_eq
        rw [String.toList_ofList, name_eq]
        exact names.ends
  · rintro ⟨noDot, stem, filled, ends⟩
    obtain rfl := names.ends.unique ends
    have before : ∀ c ∈ extension.toList.reverse, (c != '.') = true := by
      intro c member
      refine bne_iff_ne.mpr ?_
      rintro rfl
      exact noDot (List.mem_reverse.mp member)
    obtain ⟨last, front, reversed⟩ :=
      List.exists_cons_of_ne_nil (List.reverse_ne_nil_iff.mpr filled)
    rw [List.reverse_append, List.reverse_cons, List.append_assoc, List.singleton_append,
      List.dropWhile_append_of_pos before, List.takeWhile_append_of_pos before, reversed]
    simp

/-- A path at which a file can be written ends in its name. -/
theorem exists_namesFile {t : FileTree} {path : String} {l : Location}
    (targets : t.target path = .ok l) : ∃ name, NamesFile path name := by
  obtain ⟨directory, name, placed, plain, _, _⟩ := FileTree.target_eq_ok_iff.mp targets
  obtain ⟨checked, ⟨above, names, _⟩, _, notHere, notUp⟩ := FileTree.place_inside placed
  obtain ⟨piece, ends⟩ := exists_endsIn path
  -- nothing is behind the last slash only if the path asks for a directory
  have filled : piece ≠ [] := by
    rintro rfl
    rcases ends.behind with whole | ⟨front, whole⟩
    · rw [String.toList_eq_nil_iff.mp whole] at checked
      cases checked
    · simp [endsInSlash, whole] at plain
  obtain ⟨before, pieces⟩ := List.getLast?_eq_some_iff.mp ends.getLast?_splitOn
  have same : String.ofList piece = name := by
    have lasts := congrArg List.getLast? names
    rw [steps, pieces, List.filter_append, List.map_append, List.getLast?_append] at lasts
    simpa [filled] using lasts
  refine ⟨piece, ends, ?_, ?_⟩
  · have notDot : piece ≠ ['.'] := fun dot => notHere (by rw [← same, dot])
    simp [isTrivial, filled, notDot]
  · exact fun dots => notUp (by rw [← same, dots])

end Path

namespace Artifact

/-- What a table file holds, by the extension of its path: a document, the packed words, or, under
any other name, source text. -/
inductive Content (path : String) (runs : List Run) (db : Database) : List UInt8 → Prop where
  | document (json : Path.HasExtension path "json") :
      Content path runs db (Text.encode (Document.write runs))
  | binary {content : List UInt8} (bin : Path.HasExtension path "bin")
      (written : Binary.write runs = .ok content) : Content path runs db content
  | source (notJson : ¬Path.HasExtension path "json") (notBin : ¬Path.HasExtension path "bin") :
      Content path runs db (Text.encode (Source.render runs db))

namespace Format

variable {path : String} {name : List Char} (names : Path.NamesFile path name)

include names

theorem ofPath_of_json (json : Path.HasExtension path "json") : ofPath path = .document := by
  simp only [ofPath, names.extension?_eq_some_iff.mpr json]

theorem ofPath_of_bin (bin : Path.HasExtension path "bin") : ofPath path = .binary := by
  simp only [ofPath, names.extension?_eq_some_iff.mpr bin]

theorem ofPath_of_other (notJson : ¬Path.HasExtension path "json")
    (notBin : ¬Path.HasExtension path "bin") : ofPath path = .source := by
  rw [← names.extension?_eq_some_iff] at notJson notBin
  unfold ofPath
  split
  next json => exact absurd json notJson
  next bin => exact absurd bin notBin
  next => rfl

theorem content_iff {runs : List Run} {db : Database} {content : List UInt8} :
    Content path runs db content ↔ (ofPath path).render runs db = .ok content := by
  constructor
  · intro holds
    cases holds with
    | document json => simp only [ofPath_of_json names json, render]
    | binary bin written => simpa only [ofPath_of_bin names bin, render] using written
    | source notJson notBin => simp only [ofPath_of_other names notJson notBin, render]
  · intro rendered
    by_cases json : Path.HasExtension path "json"
    · rw [ofPath_of_json names json] at rendered
      cases rendered
      exact .document json
    · by_cases bin : Path.HasExtension path "bin"
      · rw [ofPath_of_bin names bin] at rendered
        exact .binary bin rendered
      · rw [ofPath_of_other names json bin] at rendered
        cases rendered
        exact .source json bin

end Format

end Artifact

end LexicalRuns
