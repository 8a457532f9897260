import LexicalRuns.Artifact.Binary
import LexicalRuns.Artifact.Document.Writer
import LexicalRuns.Artifact.Source
import LexicalRuns.Path
import LexicalRuns.Text.Utf8

/-! The three formats of a table file. The extension of a path chooses one, and it is compared
exactly; any other extension means source text. -/
namespace LexicalRuns.Artifact

inductive Format where
  | document
  | binary
  | source
  deriving DecidableEq, Repr

def Format.ofPath (path : String) : Format :=
  match Path.extension? path with
  | some "json" => .document
  | some "bin" => .binary
  | _ => .source

def Format.render (f : Format) (runs : List Run) (db : Database) : Except Fault (List UInt8) :=
  match f with
  | .document => .ok (Text.encode (Document.write runs))
  | .binary => Binary.write runs
  | .source => .ok (Text.encode (Source.render runs db))

end LexicalRuns.Artifact
