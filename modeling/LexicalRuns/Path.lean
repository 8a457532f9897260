/-! Paths as text. Pieces between slashes that are empty or a single dot do not count, except for
a dot that starts a relative path. -/
namespace LexicalRuns.Path

/-- The greatest size of a path and of one name in it, in bytes. -/
def maxSize : Nat := 4095

def maxNameSize : Nat := 255

def isTrivial (piece : List Char) : Bool := piece = [] || piece = ['.']

/-- The slash or dot at the start of a path, and the pieces after it. -/
def parts (path : List Char) : List Char × List (List Char) :=
  match path with
  | '/' :: rest => (['/'], rest.splitOn '/')
  | ['.'] => (['.'], [])
  | '.' :: '/' :: rest => (['.'], [] :: rest.splitOn '/')
  | _ => ([], path.splitOn '/')

def join (pieces : List (List Char)) : List Char := ['/'].intercalate pieces

/-- The paths above the one that ends in the given pieces, the last of them first. -/
def parentsFrom (lead : List Char) : List (List Char) → List (List Char)
  | [] => if lead = ['.'] then [[]] else []
  | piece :: before =>
    if isTrivial piece then parentsFrom lead before
    else (lead ++ join (before.dropWhile isTrivial).reverse) :: parentsFrom lead before

/-- The paths above a path, the nearest first. -/
def parents (path : String) : List String :=
  let (lead, pieces) := parts path.toList
  (parentsFrom lead pieces.reverse).map String.ofList

def parent? (path : String) : Option String := (parents path).head?

/-- The last piece that counts, unless it leads upwards. -/
def fileName? (path : String) : Option (List Char) :=
  match ((parts path.toList).2.reverse.dropWhile isTrivial).head? with
  | none => none
  | some piece => if piece = ['.', '.'] then none else some piece

/-- What follows the last dot of the file name, if something comes before that dot. -/
def extension? (path : String) : Option String :=
  match fileName? path with
  | none => none
  | some name =>
    match name.reverse.dropWhile (· != '.') with
    | [] => none
    | [_] => none
    | _ :: _ :: _ => some (String.ofList (name.reverse.takeWhile (· != '.')).reverse)

def steps (path : String) : List String :=
  ((path.toList.splitOn '/').filter (· ≠ [])).map String.ofList

def endsInSlash (path : String) : Bool := path.toList.getLast? = some '/'

end LexicalRuns.Path
