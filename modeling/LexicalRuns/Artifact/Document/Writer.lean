import LexicalRuns.Run

/-! Writing tables as JSON documents: an object with the list of runs, each an object with its
three fields. The layout is that of `to_writer_pretty` of `serde_json`: a member or bracket to a line, two
spaces for each bracket that is open, nothing between the brackets of an empty list. -/
namespace LexicalRuns.Artifact.Document

def runText (r : RawRun) : String :=
  "    \x7b\n      \"code_point\": " ++ toString r.start ++
    ",\n      \"length\": " ++ toString r.length ++
    ",\n      \"rule\": \"" ++ r.rule.name ++ "\"\n    \x7d"

def writeRaw (runs : List RawRun) : String :=
  match runs with
  | [] => "\x7b\n  \"runs\": []\n\x7d"
  | _ :: _ =>
    "\x7b\n  \"runs\": [\n" ++ String.intercalate ",\n" (runs.map runText) ++ "\n  ]\n\x7d"

def write (runs : List Run) : String := writeRaw (runs.map Run.raw)

end LexicalRuns.Artifact.Document
