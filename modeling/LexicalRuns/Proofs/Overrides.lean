import LexicalRuns.Override

/-! Overrides in place. Each override point has a record with the category of its override and the
name that it had before, and all other code points are as they were. -/
namespace LexicalRuns

namespace Override

theorem check_eq_ok_iff (os : List Override) :
    check os = .ok () ↔ ∀ o ∈ os, o.category.rule? = some o.produces := by
  induction os with
  | nil => simp [check]
  | cons o rest ih =>
    simp only [check, List.forall_mem_cons]
    split
    next agrees => rw [ih, and_iff_right agrees]
    next differs => simp [differs]

theorem check_all : check all = .ok () := rfl

theorem nodup_all : (all.map codePoint).Nodup := by decide

/-- What a database holds at the point of an override once that is in place. -/
def patched (db : Database) (o : Override) : Record :=
  ⟨(db[o.codePoint]?).elim missingName Record.name, o.category⟩

theorem getElem?_patch (db : Database) (o : Override) (c : Nat) :
    (patch db o)[c]? = if o.codePoint = c then some (patched db o) else db[c]? := by
  unfold patch patched
  cases db[o.codePoint]? <;> simp [Std.ExtTreeMap.getElem?_insert]

/-- Overrides at different points do not meet. -/
theorem getElem?_foldl_patch (db : Database) (os : List Override)
    (distinct : (os.map codePoint).Nodup) (c : Nat) :
    (os.foldl patch db)[c]? = ((os.find? (·.codePoint = c)).map (patched db)).or db[c]? := by
  induction os generalizing db with
  | nil => rfl
  | cons o rest ih =>
    obtain ⟨fresh, distinct⟩ := List.nodup_cons.mp distinct
    rw [List.foldl_cons, ih _ distinct]
    by_cases here : o.codePoint = c
    · have last : rest.find? (·.codePoint = c) = none := by
        rw [List.find?_eq_none]
        intro other member same
        exact fresh (List.mem_map.mpr ⟨other, member, by simpa [here] using same⟩)
      simp [last, here, getElem?_patch]
    · have kept : (patch db o)[c]? = db[c]? := by rw [getElem?_patch, if_neg here]
      cases found : rest.find? (·.codePoint = c) with
      | none => simp [found, here, kept]
      | some other =>
        have point : other.codePoint = c := by simpa using List.find?_some found
        simp [found, here, patched, point, kept]

end Override

namespace Database

/-- The rule that a code point should get from a database: that of its override, else that of its
category. -/
def lexicalRule (db : Database) (c : Nat) : Option Rule :=
  if CodePoint.last < c then none
  else
    match Override.all.find? (·.codePoint = c) with
    | some o => some o.produces
    | none => (db[c]?).bind fun record => record.category.rule?

theorem applyOverrides_eq_ok (db : Database) :
    db.applyOverrides = .ok (Override.all.foldl Override.patch db) := by
  simp only [applyOverrides, Override.check_all]

theorem classify_patched (db : Database) {c : Nat} (inside : c ≤ CodePoint.last) :
    (Override.all.foldl Override.patch db).classify c = db.lexicalRule c := by
  simp only [classify, lexicalRule, if_neg (Nat.not_lt.mpr inside),
    Override.getElem?_foldl_patch db Override.all Override.nodup_all]
  cases found : Override.all.find? (·.codePoint = c) with
  | none => cases db[c]? <;> rfl
  | some o =>
    have member := List.mem_of_find?_eq_some found
    exact (Override.check_eq_ok_iff _).mp Override.check_all o member

theorem exists_applyOverrides (db : Database) :
    ∃ patched, db.applyOverrides = .ok patched ∧
      ∀ c ≤ CodePoint.last, patched.classify c = db.lexicalRule c :=
  ⟨_, db.applyOverrides_eq_ok, fun _ inside => db.classify_patched inside⟩

end Database

end LexicalRuns
