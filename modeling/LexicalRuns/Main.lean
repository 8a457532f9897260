import LexicalRuns.Generation

/-! The generator as a program. It reads the environment and the input, prints, and carries out a
plan on the files of the machine. -/
namespace LexicalRuns.Generation

def fileFault (e : IO.Error) : FileFault :=
  match e with
  | .noFileOrDirectory .. | .noSuchThing .. => .notFound
  | .alreadyExists .. => .occupied
  | .inappropriateType _ code _ => if code = 21 then .isDirectory else .notDirectory
  | .invalidArgument _ code _ => if code = 36 ∨ code = -36 then .nameTooLong else .other (toString e)
  | e => .other (toString e)

def attempt (action : IO α) : IO (Except FileFault α) := do
  try
    return .ok (← action)
  catch e =>
    return .error (fileFault e)

def environment : IO Environment := do
  return {
    unicodeData := ← IO.getEnv "CPRUN_UNICODE_DATA"
    output := ← IO.getEnv "CPRUN_OUT"
    verify := (← IO.getEnv "CPRUN_VERIFY").map Text.encode }

def failWith (report : Report) : IO UInt32 := do
  IO.eprint report.text
  return 1

def Plan.perform : Plan → IO UInt32
  | .fail output report => do
    IO.print output
    failWith report
  | .print output => do
    IO.print output
    return 0
  | .save output path runs db final => do
    IO.print output
    let parent := (Path.parent? path).getD ""
    let made ← if parent = "" then pure (.ok ()) else attempt (IO.FS.createDirAll parent)
    match made with
    | .error fault => failWith (creatingReport parent fault)
    | .ok () =>
      match ← attempt (IO.FS.Handle.mk path .write) with
      | .error fault => failWith (writingReport path (.file fault))
      | .ok file =>
        match (Artifact.Format.ofPath path).render runs db with
        | .error fault => failWith (writingReport path fault)
        | .ok content =>
          match ← attempt (file.write ⟨content.toArray⟩) with
          | .error fault => failWith (writingReport path (.file fault))
          | .ok () =>
            IO.print final
            return 0

end LexicalRuns.Generation

open LexicalRuns in
def main (args : List String) : IO UInt32 := do
  match (Settings.ofEnvironment (← Generation.environment)).withArguments args with
  | .error fault => Generation.failWith ⟨fault.message, []⟩
  | .ok settings =>
    let input ← Generation.attempt (IO.FS.readBinFile settings.unicodeData)
    (Generation.plan settings (input.map fun bytes => bytes.data.toList)).perform
