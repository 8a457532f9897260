import LexicalRuns.Fault
import LexicalRuns.Path
import Std.Data.ExtTreeMap

/-! Trees of files. A path is followed from the root, name by name; every name but the last has to
be that of a directory. -/
namespace LexicalRuns

/-- The names from the root to a place in a tree. -/
abbrev Location := List String

inductive Node where
  | file (content : List UInt8)
  | directory
  deriving DecidableEq, Repr

/-- What is found at every location but the root, which is a directory. -/
structure FileTree where
  nodes : Std.ExtTreeMap Location Node

namespace FileTree

def empty : FileTree := ⟨∅⟩

def node? (t : FileTree) (l : Location) : Option Node :=
  if l = [] then some .directory else t.nodes[l]?

def file? (t : FileTree) (l : Location) : Option (List UInt8) :=
  match t.node? l with
  | some (.file content) => some content
  | _ => none

def put (t : FileTree) (l : Location) (n : Node) : FileTree := ⟨t.nodes.insert l n⟩

def enter (t : FileTree) (l : Location) : Except FileFault Location :=
  match t.node? l with
  | some .directory => .ok l
  | some (.file _) => .error .notDirectory
  | none => .error .notFound

def child (l : Location) (name : String) : Except FileFault Location :=
  if Path.maxNameSize < name.utf8ByteSize then .error .nameTooLong else .ok (l ++ [name])

def follow (t : FileTree) : Location → List String → Except FileFault Location
  | l, [] => .ok l
  | l, name :: rest =>
    match t.enter l with
    | .error fault => .error fault
    | .ok l =>
      if name = "." then t.follow l rest
      else if name = ".." then t.follow l.dropLast rest
      else
        match child l name with
        | .error fault => .error fault
        | .ok l =>
          match t.node? l with
          | none => .error .notFound
          | some _ => t.follow l rest

/-- Refuses a path that cannot be that of a file in any tree. -/
def checkPath (path : String) : Except FileFault Unit :=
  if '\x00' ∈ path.toList then .error .zeroCharacter
  else if Path.maxSize < path.utf8ByteSize then .error .nameTooLong
  else if path = "" then .error .notFound
  else .ok ()

/-- The location that a path leads to; a slash at its end asks for a directory. -/
def locate (t : FileTree) (path : String) : Except FileFault Location :=
  match checkPath path with
  | .error fault => .error fault
  | .ok () => t.follow [] (Path.steps path ++ if Path.endsInSlash path then ["."] else [])

def read (t : FileTree) (path : String) : Except FileFault (List UInt8) :=
  match t.locate path with
  | .error fault => .error fault
  | .ok l =>
    match t.node? l with
    | some (.file content) => .ok content
    | some .directory => .error .isDirectory
    | none => .error .notFound

def hasDirectory (t : FileTree) (path : String) : Bool :=
  match t.locate path with
  | .error _ => false
  | .ok l => t.node? l = some .directory

/-- The place of a file that a path names, which may not exist yet. -/
inductive Place where
  /-- A name in a directory. -/
  | inside (directory : Location) (name : String)
  /-- A directory by its nature: the root, or one named by dots. -/
  | directory
  deriving DecidableEq, Repr

def place (t : FileTree) (path : String) : Except FileFault Place :=
  match checkPath path with
  | .error fault => .error fault
  | .ok () =>
    match (Path.steps path).getLast? with
    | none => .ok .directory
    | some name =>
      match (t.follow [] (Path.steps path).dropLast).bind t.enter with
      | .error fault => .error fault
      | .ok l => if name = "." ∨ name = ".." then .ok .directory else .ok (.inside l name)

/-- The location at which a path names a file to be written, which may not exist yet. -/
def target (t : FileTree) (path : String) : Except FileFault Location :=
  match t.place path with
  | .error fault => .error fault
  | .ok .directory => .error .isDirectory
  | .ok (.inside l name) =>
    if Path.endsInSlash path then .error .isDirectory
    else
      match child l name with
      | .error fault => .error fault
      | .ok l => if t.node? l = some .directory then .error .isDirectory else .ok l

/-- Gives the file at a path a new content; a missing file is made. -/
def write (t : FileTree) (path : String) (content : List UInt8) : Except FileFault FileTree :=
  match t.target path with
  | .error fault => .error fault
  | .ok l => .ok (t.put l (.file content))

def makeDirectory (t : FileTree) (path : String) : Except FileFault FileTree :=
  match t.place path with
  | .error fault => .error fault
  | .ok .directory => .error .occupied
  | .ok (.inside l name) =>
    match child l name with
    | .error fault => .error fault
    | .ok l =>
      match t.node? l with
      | some _ => .error .occupied
      | none => .ok (t.put l .directory)

/-- Makes a directory, or accepts the one that is there. -/
def ensureDirectory (t : FileTree) (path : String) : Except FileFault FileTree :=
  match t.makeDirectory path with
  | .ok t => .ok t
  | .error fault => if t.hasDirectory path then .ok t else .error fault

/-- Makes the first of the given directories, and those after it as far as they are needed. The
tree is given in any case, for directories made before a fault remain. -/
def makeDirectoriesAlong (t : FileTree) : List String → FileTree × Except FileFault Unit
  | [] => (t, .ok ())
  | path :: above =>
    if path = "" then (t, .ok ())
    else
      match t.ensureDirectory path with
      | .ok t => (t, .ok ())
      | .error .notFound =>
        match t.makeDirectoriesAlong above with
        | (t, .error fault) => (t, .error fault)
        | (t, .ok ()) =>
          match t.ensureDirectory path with
          | .ok t => (t, .ok ())
          | .error fault => (t, .error fault)
      | .error fault => (t, .error fault)

def makeDirectories (t : FileTree) (path : String) : FileTree × Except FileFault Unit :=
  t.makeDirectoriesAlong (path :: Path.parents path)

/-- The paths of all regular files, in the order of their text. -/
def filePaths (t : FileTree) : List String :=
  (t.nodes.toList.filterMap fun (l, n) =>
    match n with
    | .file _ => some (String.intercalate "/" l)
    | .directory => none).mergeSort

end FileTree

end LexicalRuns
