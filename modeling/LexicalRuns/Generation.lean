import LexicalRuns.Build
import LexicalRuns.Settings
import LexicalRuns.TableFile

/-! Generating a table file. Reading the input decides on a plan, and only a plan to save, which
holds the whole table already, changes files: first the directory is made, then the file is opened,
and the table is serialised into it. -/
namespace LexicalRuns.Generation

/-- Why a run of the generator failed: what it was about, and the causes from the outside in. -/
structure Report where
  headline : String
  causes : List String
  deriving DecidableEq, Repr

def numberedCauses (number : Nat) : List String → String
  | [] => ""
  | cause :: rest =>
    "    " ++ toString number ++ ": " ++ cause ++ "\n" ++ numberedCauses (number + 1) rest

/-- A single cause is not numbered. -/
def Report.text (r : Report) : String :=
  let causes :=
    match r.causes with
    | [] => ""
    | [cause] => "\nCaused by:\n    " ++ cause ++ "\n"
    | causes => "\nCaused by:\n" ++ numberedCauses 0 causes
  "Error: " ++ r.headline ++ "\n" ++ causes

/-- A fault of the file store is a cause of its own. -/
def causes : Fault → List String
  | .file cause => [(Fault.file cause).message, cause.message]
  | fault => [fault.message]

inductive Plan where
  | fail (output : String) (report : Report)
  | print (output : String)
  | save (output : String) (path : String) (runs : List Run) (db : Database) (final : String)

def loadedLine (count : Nat) : String :=
  "[gen_cprun] " ++ toString count ++ " code points loaded, encoding…\n"

def builtLine (s : Settings) (summary : Encoding.Summary) : String :=
  "[gen_cprun] " ++ toString summary.runs.length ++ " runs, longest = " ++
    toString summary.longest ++ ", verified = " ++ toString s.verify ++ "\n"

def savedLine (s : Settings) (count : Nat) : String :=
  "[gen_cprun] wrote " ++ toString count ++ " records (" ++ toString (count * 4) ++
    " bytes packed) → " ++ s.output ++ "\n"

def readFault (s : Settings) (fault : Fault) : Plan :=
  .fail "" ⟨"reading " ++ s.unicodeData, causes fault⟩

def planFor (s : Settings) (db : Database) : Plan :=
  if s.dump then .print db.dump
  else
    let loaded := loadedLine db.size
    match db.build s.verify with
    | .error fault => .fail loaded ⟨"building run table", causes fault⟩
    | .ok built =>
      .save (loaded ++ builtLine s built.summary) s.output built.summary.runs built.database
        (savedLine s built.summary.runs.length)

def plan (s : Settings) (input : Except FileFault (List UInt8)) : Plan :=
  match input with
  | .error fault => readFault s (.file fault)
  | .ok text =>
    match UnicodeData.read text with
    | .error fault => readFault s fault
    | .ok db => planFor s db

structure Outcome where
  exit : Nat
  output : String
  errors : String
  files : FileTree

def creatingReport (path : String) (fault : FileFault) : Report :=
  ⟨"creating " ++ path, [fault.message]⟩

def writingReport (path : String) (fault : Fault) : Report := ⟨"writing " ++ path, causes fault⟩

def failed (files : FileTree) (output : String) (report : Report) : Outcome :=
  ⟨1, output, report.text, files⟩

/-- Makes the directory that a path needs. -/
def prepare (files : FileTree) (path : String) : FileTree × Except Report Unit :=
  match Path.parent? path with
  | none => (files, .ok ())
  | some parent =>
    match files.makeDirectories parent with
    | (files, .error fault) => (files, .error (creatingReport parent fault))
    | (files, .ok ()) => (files, .ok ())

def Plan.run (files : FileTree) : Plan → Outcome
  | .fail output report => failed files output report
  | .print output => ⟨0, output, "", files⟩
  | .save output path runs db final =>
    match prepare files path with
    | (files, .error report) => failed files output report
    | (files, .ok ()) =>
      match files.saveTable path runs db with
      | (files, .error fault) => failed files output (writingReport path fault)
      | (files, .ok ()) => ⟨0, output ++ final, "", files⟩

def generate (environment : Environment) (args : List String) (files : FileTree) : Outcome :=
  match (Settings.ofEnvironment environment).withArguments args with
  | .error fault => failed files "" ⟨fault.message, []⟩
  | .ok settings => (plan settings (files.read settings.unicodeData)).run files

end LexicalRuns.Generation
