import LexicalRuns.Encoding
import LexicalRuns.Override
import LexicalRuns.Verification

/-! Building: from a database to the runs of its classification. -/
namespace LexicalRuns

/-- The database with its overrides, and its runs. -/
structure Build where
  database : Database
  summary : Encoding.Summary

/-- Nothing is built unless every step succeeds; the last one is verification, if asked for. -/
def Database.build (db : Database) (verified : Bool) : Except Fault Build :=
  match db.applyOverrides with
  | .error fault => .error fault
  | .ok patched =>
    match Encoding.encode patched.classify with
    | .error fault => .error fault
    | .ok summary =>
      if verified then
        match verify summary.runs patched.classify with
        | .error fault => .error fault
        | .ok () => .ok ⟨patched, summary⟩
      else .ok ⟨patched, summary⟩

end LexicalRuns
