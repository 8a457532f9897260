import LexicalRuns.Generation
import LexicalRuns.Proofs.BuiltTable
import LexicalRuns.Proofs.FileNames

/-! What a run of the generator does to the files. The input is read and the table built before the
first change, and building never fails; then directories are made, the file is opened, and the table
that was built can be serialised in every format. So a run that fails leaves all regular files alone,
and one that does not writes the whole artifact of what it has read. -/
namespace LexicalRuns.Generation

/-- The directory of a path can be made, and then any content be written there. -/
def CanSave (files : FileTree) (path : String) : Prop :=
  ∃ prepared, prepare files path = (prepared, .ok ()) ∧
    ∀ content, ∃ written, prepared.write path content = .ok written

/-- The file at the path of the output holds the artifact of the database in the input. -/
def Generates (s : Settings) (before after : FileTree) : Prop :=
  ∃ db built content, before.readDatabase s.unicodeData = .ok db ∧ db.build s.verify = .ok built ∧
    db.applyOverrides = .ok built.database ∧
    Artifact.Content s.output built.summary.runs built.database content ∧
    before.Saved after s.output content

/-- Whether a file can be written does not depend on its content. -/
theorem canSave_iff {files : FileTree} {path : String} :
    CanSave files path ↔
      ∃ prepared l, prepare files path = (prepared, .ok ()) ∧ prepared.target path = .ok l := by
  constructor
  · rintro ⟨prepared, made, writes⟩
    obtain ⟨written, accepted⟩ := writes []
    obtain ⟨l, targets, _⟩ := FileTree.write_eq_ok_iff.mp accepted
    exact ⟨prepared, l, made, targets⟩
  · rintro ⟨prepared, l, made, targets⟩
    exact ⟨prepared, made, fun content => ⟨_, FileTree.write_eq_ok_iff.mpr ⟨l, targets, rfl⟩⟩⟩

theorem prepare_sameFiles (files : FileTree) (path : String) :
    files.SameFiles (prepare files path).1 := by
  unfold prepare
  split
  next => exact .refl files
  next parent _ =>
    have same := files.makeDirectoriesAlong_sameFiles (parent :: Path.parents parent)
    split
    next made =>
      rw [FileTree.makeDirectories] at made
      rwa [made] at same
    next made =>
      rw [FileTree.makeDirectories] at made
      rwa [made] at same

theorem exists_render {classify : Nat → Option Rule} {runs : List Run}
    (encodes : Encodes classify CodePoint.count runs) (f : Artifact.Format) (db : Database) :
    ∃ content, f.render runs db = .ok content := by
  cases f with
  | document => exact ⟨_, rfl⟩
  | binary => exact ⟨_, Artifact.Binary.write_eq_ok encodes.length_lt⟩
  | source => exact ⟨_, rfl⟩

/-- Once a database has been read there is nothing left that could fail but the files. -/
theorem exists_planFor {s : Settings} (save : s.dump = false) (db : Database) :
    ∃ built, db.build s.verify = .ok built ∧ db.applyOverrides = .ok built.database ∧
      (∀ f : Artifact.Format, ∃ content,
        f.render built.summary.runs built.database = .ok content) ∧
      planFor s db = .save (loadedLine db.size ++ builtLine s built.summary) s.output
        built.summary.runs built.database (savedLine s built.summary.runs.length) := by
  obtain ⟨built, builds, applied, encodes⟩ := db.exists_build
  refine ⟨built, builds s.verify, applied, fun f => exists_render encodes f built.database, ?_⟩
  simp only [planFor, save, builds s.verify, Bool.false_eq_true, if_false]

theorem plan_eq (s : Settings) (files : FileTree) :
    plan s (files.read s.unicodeData) =
      match files.readDatabase s.unicodeData with
      | .error fault => readFault s fault
      | .ok db => planFor s db := by
  unfold plan FileTree.readDatabase
  cases files.read s.unicodeData with
  | error fault => rfl
  | ok text => rfl

section Save

variable {files : FileTree} {path : String} {runs : List Run} {db : Database}
  (output final : String)

theorem run_save_of_canSave (can : CanSave files path)
    (renders : ∀ f : Artifact.Format, ∃ content, f.render runs db = .ok content) :
    ((Plan.save output path runs db final).run files).exit = 0 ∧
      ∃ content, Artifact.Content path runs db content ∧
        files.Saved ((Plan.save output path runs db final).run files).files path content := by
  obtain ⟨prepared, l, made, targets⟩ := canSave_iff.mp can
  obtain ⟨content, rendered⟩ := renders (.ofPath path)
  obtain ⟨name, names⟩ := Path.exists_namesFile targets
  have same := prepare_sameFiles files path
  rw [made] at same
  simp only [Plan.run, made, FileTree.saveTable_of_target targets rendered, true_and]
  exact ⟨content, (Artifact.Format.content_iff names).mpr rendered,
    same.saved (FileTree.put_saved targets content)⟩

theorem run_save_of_not_canSave (cannot : ¬CanSave files path) :
    ((Plan.save output path runs db final).run files).exit = 1 ∧
      files.SameFiles ((Plan.save output path runs db final).run files).files := by
  have same := prepare_sameFiles files path
  cases made : prepare files path with
  | mk prepared result =>
    rw [made] at same
    cases result with
    | error report =>
      simp only [Plan.run, made, failed, true_and]
      exact same
    | ok =>
      cases targets : prepared.target path with
      | error fault =>
        simp only [Plan.run, made, FileTree.saveTable_of_error targets, failed, true_and]
        exact same
      | ok l => exact absurd (canSave_iff.mpr ⟨prepared, l, made, targets⟩) cannot

end Save

theorem run_plan (s : Settings) (files : FileTree) :
    let outcome := (plan s (files.read s.unicodeData)).run files
    (outcome.exit = 0 ↔ ∃ db, files.readDatabase s.unicodeData = .ok db ∧
      (s.dump = true ∨ CanSave files s.output)) ∧
    (outcome.exit ≠ 0 → files.SameFiles outcome.files) ∧
    (s.dump = true → files.SameFiles outcome.files) ∧
    (s.dump = false → outcome.exit = 0 → Generates s files outcome.files) := by
  intro outcome
  cases read : files.readDatabase s.unicodeData with
  | error fault =>
    have ends : outcome = failed files "" ⟨"reading " ++ s.unicodeData, causes fault⟩ := by
      simp only [outcome, plan_eq, read]
      rfl
    simp [ends, failed, FileTree.SameFiles.refl]
  | ok db =>
    have planned : outcome = (planFor s db).run files := by
      simp only [outcome, plan_eq, read]
    cases dump : s.dump with
    | true =>
      have ends : outcome = ⟨0, db.dump, "", files⟩ := by
        simp only [planned, planFor, dump, if_true]
        rfl
      simp [ends, FileTree.SameFiles.refl]
    | false =>
      obtain ⟨built, builds, applied, renders, saves⟩ := exists_planFor dump db
      rw [saves] at planned
      by_cases can : CanSave files s.output
      · obtain ⟨success, content, holds, saved⟩ := run_save_of_canSave
          (loadedLine db.size ++ builtLine s built.summary)
          (savedLine s built.summary.runs.length) can renders
        rw [← planned] at success saved
        simp only [success, can]
        refine ⟨by simp, by simp, by simp, fun _ _ => ?_⟩
        exact ⟨db, built, content, read, builds, applied, holds, saved⟩
      · obtain ⟨failure, same⟩ := run_save_of_not_canSave
          (loadedLine db.size ++ builtLine s built.summary)
          (savedLine s built.summary.runs.length) can
        rw [← planned] at failure same
        simp [failure, can, same]

/-- A run of the generator ends well if and only if its arguments are in order, the input is read,
and there is nothing to save or it can be saved. If it does not, or if it only shows the database,
no regular file is changed; else the one at the path of the output is the artifact of the database
that the input held before. -/
theorem generate_files (environment : Environment) (args : List String) (files : FileTree) :
    let outcome := generate environment args files
    let settings := (Settings.ofEnvironment environment).withArguments args
    (outcome.exit = 0 ↔ ∃ s db, settings = .ok s ∧
      files.readDatabase s.unicodeData = .ok db ∧ (s.dump = true ∨ CanSave files s.output)) ∧
    (outcome.exit ≠ 0 → files.SameFiles outcome.files) ∧
    ∀ s, settings = .ok s →
      (s.dump = true → files.SameFiles outcome.files) ∧
      (s.dump = false → outcome.exit = 0 → Generates s files outcome.files) := by
  intro outcome settings
  cases configured : settings with
  | error fault =>
    have ends : outcome = failed files "" ⟨fault.message, []⟩ := by
      simp only [outcome, generate, show (Settings.ofEnvironment environment).withArguments args =
        .error fault from configured]
    simp [ends, failed, FileTree.SameFiles.refl]
  | ok s =>
    have ends : outcome = (plan s (files.read s.unicodeData)).run files := by
      simp only [outcome, generate, show (Settings.ofEnvironment environment).withArguments args =
        .ok s from configured]
    obtain ⟨success, failure, dumped, generated⟩ := run_plan s files
    rw [ends]
    refine ⟨?_, failure, ?_⟩
    · simpa using success
    · rintro _ ⟨⟩
      exact ⟨dumped, generated⟩

def letter : Database := (∅ : Database).insert 0x41 ⟨"A", .uppercaseLetter⟩

def letters : FileTree :=
  FileTree.empty.put ["UnicodeData.txt"] (.file (Text.encode "41;A;Lu\n"))

/-- The paths are those that nobody has to ask for; the output has the path of the input, written in
another way; the environment asks for a document; and an argument overrides that. -/
theorem generate_files_overwritten :
    ∃ built packed, letter.build true = .ok built ∧
      Artifact.Binary.write built.summary.runs = .ok packed ∧
      (generate ⟨none, none, none⟩ [] letters).files.read "tables/cprun.rs" =
        .ok (Text.encode (Artifact.Source.render built.summary.runs built.database)) ∧
      (generate ⟨none, none, none⟩ ["-o", "UnicodeData.txt"] letters).files.read
          "UnicodeData.txt" =
        .ok (Text.encode (Artifact.Source.render built.summary.runs built.database)) ∧
      (generate ⟨none, some "a/b.json", none⟩ [] letters).files.read "a/b.json" =
        .ok (Text.encode (Artifact.Document.write built.summary.runs)) ∧
      (generate ⟨some "UnicodeData.txt", some "a/b.json", some (Text.encode " No\t")⟩ ["-o", "b.bin"]
          letters).files.read "b.bin" = .ok packed := by
  obtain ⟨built, builds, _, encodes⟩ := letter.exists_build
  have packs := Artifact.Binary.write_eq_ok encodes.length_lt
  have generated (environment : Environment) (args : List String) (s : Settings)
      (configured : (Settings.ofEnvironment environment).withArguments args = .ok s)
      (save : s.dump = false) (input : letters.readDatabase s.unicodeData = .ok letter)
      (can : CanSave letters s.output) {name : List Char} (names : Path.NamesFile s.output name) :
      ∃ content, (Artifact.Format.ofPath s.output).render built.summary.runs built.database =
          .ok content ∧
        (generate environment args letters).files.read s.output = .ok content := by
    obtain ⟨success, _, finished⟩ := generate_files environment args letters
    have ended := success.mpr ⟨_, _, configured, input, .inr can⟩
    obtain ⟨db, other, content, read, rebuilds, _, holds, saved⟩ :=
      (finished _ configured).2 save ended
    obtain rfl := Except.ok.inj (input.symm.trans read)
    obtain rfl := Except.ok.inj ((builds s.verify).symm.trans rebuilds)
    exact ⟨content, (Artifact.Format.content_iff names).mp holds, saved.read⟩
  refine ⟨built, _, builds true, packs, ?unasked, ?overwritten, ?document, ?binary⟩
  case unasked =>
    have names : Path.NamesFile "tables/cprun.rs" "cprun.rs".toList :=
      ⟨⟨by decide, .inr ⟨"tables".toList, rfl⟩⟩, by decide, by decide⟩
    obtain ⟨content, rendered, found⟩ :=
      generated ⟨none, none, none⟩ [] ⟨"./UnicodeData.txt", "tables/cprun.rs", false, true⟩
        rfl rfl rfl (canSave_iff.mpr ⟨_, ["tables", "cprun.rs"], rfl, rfl⟩) names
    cases rendered
    exact found
  case overwritten =>
    have names : Path.NamesFile "UnicodeData.txt" "UnicodeData.txt".toList :=
      ⟨⟨by decide, .inl rfl⟩, by decide, by decide⟩
    obtain ⟨content, rendered, found⟩ :=
      generated ⟨none, none, none⟩ ["-o", "UnicodeData.txt"]
        ⟨"./UnicodeData.txt", "UnicodeData.txt", false, true⟩ rfl rfl rfl
        (canSave_iff.mpr ⟨letters, ["UnicodeData.txt"], rfl, rfl⟩) names
    cases rendered
    exact found
  case document =>
    have names : Path.NamesFile "a/b.json" "b.json".toList :=
      ⟨⟨by decide, .inr ⟨['a'], rfl⟩⟩, by decide, by decide⟩
    obtain ⟨content, rendered, found⟩ :=
      generated ⟨none, some "a/b.json", none⟩ [] ⟨"./UnicodeData.txt", "a/b.json", false, true⟩
        rfl rfl rfl (canSave_iff.mpr ⟨_, ["a", "b.json"], rfl, rfl⟩) names
    cases rendered
    exact found
  case binary =>
    have names : Path.NamesFile "b.bin" "b.bin".toList :=
      ⟨⟨by decide, .inl rfl⟩, by decide, by decide⟩
    obtain ⟨content, rendered, found⟩ :=
      generated ⟨some "UnicodeData.txt", some "a/b.json", some (Text.encode " No\t")⟩ ["-o", "b.bin"]
        ⟨"UnicodeData.txt", "b.bin", false, false⟩ rfl rfl rfl
        (canSave_iff.mpr ⟨letters, ["b.bin"], rfl, rfl⟩) names
    obtain rfl := Except.ok.inj (rendered.symm.trans packs)
    exact found

end LexicalRuns.Generation
