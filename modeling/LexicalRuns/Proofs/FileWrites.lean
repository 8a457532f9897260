import LexicalRuns.TableFile

/-! Changes to a tree of files. Making directories leaves every regular file as it was. Writing
changes one file, the one that its path leads to in the end: what is put in its place was no
directory before, so that every way through the tree stays open. -/
namespace LexicalRuns.FileTree

/-- The regular files are the same, with the same content; directories may have been made. -/
def SameFiles (t u : FileTree) : Prop := ∀ l, u.file? l = t.file? l

/-- The path leads to a regular file with this content, and the other files are the same. -/
def Saved (t u : FileTree) (path : String) (content : List UInt8) : Prop :=
  ∃ l, u.locate path = .ok l ∧ u.file? l = some content ∧ ∀ other ≠ l, u.file? other = t.file? other

theorem SameFiles.refl (t : FileTree) : t.SameFiles t := fun _ => rfl

theorem SameFiles.trans {t u v : FileTree} (first : t.SameFiles u) (second : u.SameFiles v) :
    t.SameFiles v :=
  fun l => (second l).trans (first l)

theorem Saved.read {t u : FileTree} {path : String} {content : List UInt8}
    (saved : t.Saved u path content) : u.read path = .ok content := by
  obtain ⟨l, located, found, _⟩ := saved
  unfold FileTree.read
  rw [located]
  unfold file? at found
  split at found
  next there =>
    cases found
    simp only [there]
  next => cases found

theorem SameFiles.saved {t u v : FileTree} (same : t.SameFiles u) {path : String}
    {content : List UInt8} (saved : u.Saved v path content) : t.Saved v path content := by
  obtain ⟨l, located, found, others⟩ := saved
  exact ⟨l, located, found, fun other apart => (others other apart).trans (same other)⟩

theorem node?_put {t : FileTree} {l : Location} (below : l ≠ []) (n : Node) (m : Location) :
    (t.put l n).node? m = if m = l then some n else t.node? m := by
  unfold node? put
  by_cases root : m = []
  · subst root
    simp [below.symm]
  · by_cases here : m = l
    · simp [here, below]
    · simp [root, here, Std.ExtTreeMap.getElem?_insert, Ne.symm here]

theorem file?_put {t : FileTree} {l : Location} (below : l ≠ []) (content : List UInt8)
    (m : Location) :
    (t.put l (.file content)).file? m = if m = l then some content else t.file? m := by
  simp only [file?, node?_put below]
  by_cases here : m = l
  · simp [here]
  · simp [here]

theorem child_eq_ok_iff {l m : Location} {name : String} :
    child l name = .ok m ↔ name.utf8ByteSize ≤ Path.maxNameSize ∧ m = l ++ [name] := by
  unfold child
  split
  next long => simp [Nat.not_le.mpr long]
  next short => simp [Nat.le_of_not_lt short, eq_comm]

theorem child_ne_nil {l m : Location} {name : String} (made : child l name = .ok m) : m ≠ [] := by
  obtain ⟨_, rfl⟩ := child_eq_ok_iff.mp made
  simp

theorem enter_eq_ok_iff {t : FileTree} {l m : Location} :
    t.enter l = .ok m ↔ t.node? l = some .directory ∧ m = l := by
  unfold enter
  split
  next found => simp [found, eq_comm]
  next found => simp [found]
  next missing => simp [missing]

/-! ### Following names -/

/-- Directories stay directories, and what is there stays there. -/
structure Keeps (t u : FileTree) : Prop where
  directory : ∀ l, t.node? l = some .directory → u.node? l = some .directory
  present : ∀ l, t.node? l ≠ none → u.node? l ≠ none

theorem keeps_put {t : FileTree} {l : Location} (below : l ≠ []) (n : Node)
    (free : t.node? l ≠ some .directory) : t.Keeps (t.put l n) := by
  constructor
  · intro m found
    have apart : m ≠ l := by
      rintro rfl
      exact free found
    rw [node?_put below, if_neg apart]
    exact found
  · intro m there
    rw [node?_put below]
    split
    · exact Option.some_ne_none n
    · exact there

inductive Leads (t : FileTree) (l : Location) : String → Location → Prop
  | here : t.node? l = some .directory → Leads t l "." l
  | up : t.node? l = some .directory → Leads t l ".." l.dropLast
  | down {name : String} {next : Location} : t.node? l = some .directory → name ≠ "." →
      name ≠ ".." → child l name = .ok next → t.node? next ≠ none → Leads t l name next

theorem follow_cons_eq_ok_iff {t : FileTree} {l m : Location} {name : String}
    {rest : List String} :
    t.follow l (name :: rest) = .ok m ↔ ∃ next, t.Leads l name next ∧ t.follow next rest = .ok m := by
  constructor
  · intro followed
    rw [follow] at followed
    split at followed
    next => cases followed
    next inside entered =>
      obtain ⟨found, rfl⟩ := enter_eq_ok_iff.mp entered
      split at followed
      next dot =>
        subst dot
        exact ⟨inside, .here found, followed⟩
      next notHere =>
        split at followed
        next dots =>
          subst dots
          exact ⟨inside.dropLast, .up found, followed⟩
        next notUp =>
          split at followed
          next => cases followed
          next next made =>
            split at followed
            next => cases followed
            next there =>
              exact ⟨next, .down found notHere notUp made (by simp [there]), followed⟩
  · rintro ⟨next, leads, later⟩
    cases leads with
    | here found =>
      rw [follow, enter_eq_ok_iff.mpr ⟨found, rfl⟩]
      exact later
    | up found =>
      rw [follow, enter_eq_ok_iff.mpr ⟨found, rfl⟩]
      exact later
    | down found notHere notUp made there =>
      obtain ⟨n, there⟩ := Option.ne_none_iff_exists'.mp there
      simp only [follow, enter_eq_ok_iff.mpr ⟨found, rfl⟩, if_neg notHere, if_neg notUp, made,
        there]
      exact later

theorem Keeps.leads {t u : FileTree} (keeps : t.Keeps u) {l m : Location} {name : String}
    (leads : t.Leads l name m) : u.Leads l name m := by
  cases leads with
  | here found => exact .here (keeps.directory l found)
  | up found => exact .up (keeps.directory l found)
  | down found notHere notUp made there =>
    exact .down (keeps.directory l found) notHere notUp made (keeps.present m there)

theorem Keeps.follow {t u : FileTree} (keeps : t.Keeps u) {l m : Location} {names : List String}
    (followed : t.follow l names = .ok m) : u.follow l names = .ok m := by
  induction names generalizing l with
  | nil => exact followed
  | cons name rest ih =>
    obtain ⟨next, leads, later⟩ := follow_cons_eq_ok_iff.mp followed
    exact follow_cons_eq_ok_iff.mpr ⟨next, keeps.leads leads, ih later⟩

theorem follow_append {t : FileTree} {l m k : Location} {names more : List String}
    (first : t.follow l names = .ok m) (second : t.follow m more = .ok k) :
    t.follow l (names ++ more) = .ok k := by
  induction names generalizing l with
  | nil =>
    cases first
    exact second
  | cons name rest ih =>
    obtain ⟨next, leads, later⟩ := follow_cons_eq_ok_iff.mp first
    exact follow_cons_eq_ok_iff.mpr ⟨next, leads, ih later⟩

/-- The place of a path is a name that is no dots, in a directory that the names before it lead
to. -/
theorem place_inside {t : FileTree} {path name : String} {l : Location}
    (placed : t.place path = .ok (.inside l name)) :
    checkPath path = .ok () ∧
      (∃ above, Path.steps path = above ++ [name] ∧ t.follow [] above = .ok l) ∧
      t.node? l = some .directory ∧ name ≠ "." ∧ name ≠ ".." := by
  unfold place at placed
  split at placed
  next => cases placed
  next checked =>
    split at placed
    next => cases placed
    next last ends =>
      obtain ⟨above, names⟩ := List.getLast?_eq_some_iff.mp ends
      rw [names, List.dropLast_concat] at placed
      split at placed
      next => cases placed
      next inside entered =>
        split at placed
        next => cases placed
        next plain =>
          cases placed
          cases followed : t.follow [] above with
          | error fault =>
            rw [followed] at entered
            cases entered
          | ok before =>
            rw [followed] at entered
            obtain ⟨found, rfl⟩ := enter_eq_ok_iff.mp entered
            exact ⟨checked, ⟨above, names, followed⟩, found, not_or.mp plain⟩

/-! ### Changes -/

theorem makeDirectory_sameFiles {t u : FileTree} {path : String}
    (made : t.makeDirectory path = .ok u) : t.SameFiles u := by
  unfold makeDirectory at made
  split at made
  next => cases made
  next => cases made
  next =>
    split at made
    next => cases made
    next l child =>
      split at made
      next => cases made
      next free =>
        cases made
        intro m
        simp only [file?, node?_put (child_ne_nil child)]
        by_cases here : m = l
        · simp [here, free]
        · simp [here]

theorem ensureDirectory_sameFiles {t u : FileTree} {path : String}
    (made : t.ensureDirectory path = .ok u) : t.SameFiles u := by
  unfold ensureDirectory at made
  split at made
  next changed =>
    cases made
    exact makeDirectory_sameFiles changed
  next =>
    split at made
    · cases made
      exact .refl t
    · cases made

/-- Whatever comes of it, only directories are made. -/
theorem makeDirectoriesAlong_sameFiles (t : FileTree) (paths : List String) :
    t.SameFiles (t.makeDirectoriesAlong paths).1 := by
  induction paths with
  | nil => exact .refl t
  | cons path above ih =>
    unfold makeDirectoriesAlong
    split
    · exact .refl t
    · split
      next made => exact ensureDirectory_sameFiles made
      next =>
        split
        next failed => rwa [failed] at ih
        next prepared =>
          rw [prepared] at ih
          split
          next made => exact ih.trans (ensureDirectory_sameFiles made)
          next => exact ih
      next => exact .refl t

/-- A file has its place in a directory, at a name that is not taken by another one. -/
theorem target_eq_ok_iff {t : FileTree} {path : String} {l : Location} :
    t.target path = .ok l ↔ ∃ directory name,
      t.place path = .ok (.inside directory name) ∧ Path.endsInSlash path = false ∧
      child directory name = .ok l ∧ t.node? l ≠ some .directory := by
  constructor
  · intro found
    unfold target at found
    split at found
    next => cases found
    next => cases found
    next directory name placed =>
      split at found
      next => cases found
      next plain =>
        split at found
        next => cases found
        next made =>
          split at found
          next => cases found
          next free =>
            cases found
            exact ⟨directory, name, placed, Bool.eq_false_iff.mpr plain, made, free⟩
  · rintro ⟨directory, name, placed, plain, made, free⟩
    simp only [target, placed, plain, made, if_neg free, Bool.false_eq_true, if_false]

theorem write_eq_ok_iff {t u : FileTree} {path : String} {content : List UInt8} :
    t.write path content = .ok u ↔ ∃ l, t.target path = .ok l ∧ t.put l (.file content) = u := by
  unfold write
  cases t.target path with
  | error fault => simp
  | ok l => simp

theorem follow_put {t : FileTree} {directory l : Location} {name : String} {content : List UInt8}
    (found : t.node? directory = some .directory) (plain : name ≠ "." ∧ name ≠ "..")
    (made : child directory name = .ok l) (free : t.node? l ≠ some .directory) :
    (t.put l (.file content)).follow directory [name] = .ok l := by
  have below := child_ne_nil made
  have stays := (keeps_put below (.file content) free).directory directory found
  have there : (t.put l (.file content)).node? l ≠ none := by
    rw [node?_put below, if_pos rfl]
    exact Option.some_ne_none _
  exact follow_cons_eq_ok_iff.mpr ⟨l, .down stays plain.1 plain.2 made there, rfl⟩

theorem put_saved {t : FileTree} {path : String} {l : Location} (targets : t.target path = .ok l)
    (content : List UInt8) : t.Saved (t.put l (.file content)) path content := by
  obtain ⟨directory, name, placed, plain, made, free⟩ := target_eq_ok_iff.mp targets
  obtain ⟨checked, ⟨above, names, followed⟩, found, noDots⟩ := place_inside placed
  have below := child_ne_nil made
  have whole : (t.put l (.file content)).follow [] (Path.steps path) = .ok l := by
    rw [names]
    exact follow_append ((keeps_put below (.file content) free).follow followed)
      (follow_put found noDots made free)
  refine ⟨l, ?_, ?_, fun other apart => ?_⟩
  · simp only [locate, checked, plain, Bool.false_eq_true, if_false, List.append_nil]
    exact whole
  · rw [file?_put below, if_pos rfl]
  · rw [file?_put below, if_neg apart]

/-! ### Saved tables -/

section Table

variable {t : FileTree} {path : String} {runs : List Run} {db : Database}

theorem saveTable_of_target {l : Location} {content : List UInt8} (targets : t.target path = .ok l)
    (rendered : (Artifact.Format.ofPath path).render runs db = .ok content) :
    t.saveTable path runs db = (t.put l (.file content), .ok ()) := by
  simp only [saveTable, saveTableAs, targets, rendered]

theorem saveTable_of_error {fault : FileFault} (refused : t.target path = .error fault) :
    t.saveTable path runs db = (t, .error (.file fault)) := by
  simp only [saveTable, saveTableAs, opened, refused]

end Table

end LexicalRuns.FileTree
