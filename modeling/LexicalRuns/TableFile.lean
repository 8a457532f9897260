import LexicalRuns.Artifact.Format
import LexicalRuns.FileTree
import LexicalRuns.UnicodeData.Reader

/-! Databases and tables in files. -/
namespace LexicalRuns.FileTree

def readDatabase (t : FileTree) (path : String) : Except Fault Database :=
  match t.read path with
  | .error fault => .error (.file fault)
  | .ok text => UnicodeData.read text

/-- The file is found or made before the table is serialised. -/
def saveTableAs (t : FileTree) (format : Artifact.Format) (path : String) (runs : List Run)
    (db : Database) : Except Fault FileTree :=
  match t.target path with
  | .error fault => .error (.file fault)
  | .ok l =>
    match format.render runs db with
    | .error fault => .error fault
    | .ok content => .ok (t.put l (.file content))

/-- Opening a file for writing empties it. -/
def opened (t : FileTree) (path : String) : FileTree :=
  match t.target path with
  | .error _ => t
  | .ok l => t.put l (.file [])

/-- Saves a table in the format that its path asks for. The tree is given in any case, for a table
that cannot be serialised leaves an empty file. -/
def saveTable (t : FileTree) (path : String) (runs : List Run) (db : Database) :
    FileTree × Except Fault Unit :=
  match t.saveTableAs (.ofPath path) path runs db with
  | .error fault => (t.opened path, .error fault)
  | .ok saved => (saved, .ok ())

end LexicalRuns.FileTree
