import LexicalRuns.Category
import LexicalRuns.CodePoint
import Std.Data.ExtTreeMap

/-! Databases: the name and category of every code point that has them. Two databases with the
same entries are equal, however they came about. -/
namespace LexicalRuns

structure Record where
  name : String
  category : Category
  deriving DecidableEq, Repr

abbrev Database := Std.ExtTreeMap Nat Record

namespace Database

/-- The line that shows one entry, without its line feed. -/
def dumpLine (entry : Nat × Record) : String :=
  CodePoint.label entry.1 ++ " " ++ entry.2.category.code ++ " " ++ entry.2.name

def dump (db : Database) : String :=
  String.join (db.toList.map fun entry => dumpLine entry ++ "\n")

def fill (db : Database) (start count : Nat) (record : Nat → Record) : Database :=
  (List.range' start count).foldl (fun db c => db.insert c (record c)) db

end Database

end LexicalRuns
