import LexicalRuns.Proofs.Overrides

/-! What overrides do to a database, and what they leave. Only the override points are touched: each of
them has a record afterwards, one that was there keeps its name, and what is written elsewhere is the
same before and after. Overrides that are in place change nothing more. -/
namespace LexicalRuns

namespace Override

variable {os : List Override}

/-- Patching adds a record only where there is none. -/
theorem size_patch (db : Database) (o : Override) :
    (patch db o).size = db.size + if db.contains o.codePoint then 0 else 1 := by
  have present : db.contains o.codePoint = (db[o.codePoint]?).isSome :=
    Std.ExtTreeMap.contains_eq_isSome_getElem?
  unfold patch
  cases found : db[o.codePoint]? with
  | none => rw [Std.ExtTreeMap.size_insert, present, found]; rfl
  | some record => rw [Std.ExtTreeMap.size_insert, present, found]; rfl

/-- Overrides at different points do not count each other's records, by induction on the overrides. -/
theorem size_foldl_patch (db : Database) (distinct : (os.map codePoint).Nodup) :
    (os.foldl patch db).size = db.size + (os.map codePoint).countP (!db.contains ·) := by
  induction os generalizing db with
  | nil => rfl
  | cons o rest ih =>
    obtain ⟨fresh, distinct⟩ := List.nodup_cons.mp distinct
    have kept : (rest.map codePoint).countP (!(patch db o).contains ·) =
        (rest.map codePoint).countP (!db.contains ·) := by
      refine List.countP_congr fun c member => ?_
      have apart : o.codePoint ≠ c := fun same => fresh (same ▸ member)
      simp only [Std.ExtTreeMap.contains_eq_isSome_getElem?, getElem?_patch, if_neg apart]
    rw [List.foldl_cons, ih (patch db o) distinct, kept, size_patch, List.map_cons, List.countP_cons]
    cases db.contains o.codePoint <;> simp <;> omega

theorem find?_codePoint (distinct : (os.map codePoint).Nodup) {o : Override} (member : o ∈ os) :
    os.find? (·.codePoint = o.codePoint) = some o := by
  induction os with
  | nil => cases member
  | cons first rest ih =>
    obtain ⟨fresh, distinct⟩ := List.nodup_cons.mp distinct
    rcases List.mem_cons.mp member with rfl | later
    · simp
    · have apart : first.codePoint ≠ o.codePoint := fun same =>
        fresh (same ▸ List.mem_map.mpr ⟨o, later, rfl⟩)
      simp [apart, ih distinct later]

theorem find?_eq_none_of_ne {c : Nat} (apart : ∀ o ∈ os, o.codePoint ≠ c) :
    os.find? (·.codePoint = c) = none := by
  simpa [List.find?_eq_none] using apart

theorem getElem?_foldl_patch_of_ne (db : Database) (distinct : (os.map codePoint).Nodup) {c : Nat}
    (apart : ∀ o ∈ os, o.codePoint ≠ c) : (os.foldl patch db)[c]? = db[c]? := by
  rw [getElem?_foldl_patch db os distinct, find?_eq_none_of_ne apart, Option.map_none, Option.none_or]

theorem getElem?_foldl_patch_of_mem (db : Database) (distinct : (os.map codePoint).Nodup)
    {o : Override} (member : o ∈ os) :
    (os.foldl patch db)[o.codePoint]? = some (patched db o) := by
  rw [getElem?_foldl_patch db os distinct, find?_codePoint distinct member]
  rfl

theorem ext_points (os : List Override) {d e : Database} (points : ∀ o ∈ os, d[o.codePoint]? = e[o.codePoint]?)
    (others : ∀ c : Nat, (∀ o ∈ os, o.codePoint ≠ c) → d[c]? = e[c]?) : d = e := by
  apply Std.ExtTreeMap.ext_getElem?
  intro c
  by_cases point : ∃ o ∈ os, o.codePoint = c
  · obtain ⟨o, member, rfl⟩ := point
    exact points o member
  · exact others c fun o member here => point ⟨o, member, here⟩

theorem foldl_patch_twice (db : Database) (distinct : (os.map codePoint).Nodup) :
    os.foldl patch (os.foldl patch db) = os.foldl patch db := by
  refine ext_points os (fun o member => ?_) fun c apart => getElem?_foldl_patch_of_ne _ distinct apart
  rw [getElem?_foldl_patch_of_mem _ distinct member, patched,
    getElem?_foldl_patch_of_mem db distinct member]
  rfl

theorem foldl_patch_insert (db : Database) (distinct : (os.map codePoint).Nodup) {c : Nat}
    (apart : ∀ o ∈ os, o.codePoint ≠ c) (record : Record) :
    os.foldl patch (db.insert c record) = (os.foldl patch db).insert c record := by
  refine ext_points os (fun o member => ?_) fun d others => ?_
  · have here : compare c o.codePoint ≠ .eq := by
      rw [ne_eq, Nat.compare_eq_eq]
      exact (apart o member).symm
    rw [getElem?_foldl_patch_of_mem _ distinct member, Std.ExtTreeMap.getElem?_insert, if_neg here,
      getElem?_foldl_patch_of_mem db distinct member, patched, patched,
      Std.ExtTreeMap.getElem?_insert, if_neg here]
  · rw [getElem?_foldl_patch_of_ne _ distinct others, Std.ExtTreeMap.getElem?_insert,
      Std.ExtTreeMap.getElem?_insert, getElem?_foldl_patch_of_ne db distinct others]

end Override

namespace Database

/-- Overrides never fail. They set the category of their own points and keep the names there, give the
points without a record one of their own, and change nothing else; once is enough, and what is written
elsewhere may be written before or after. -/
theorem applyOverrides_exact (db : Database) :
    ∃ patched, db.applyOverrides = .ok patched ∧
      (∀ c : Nat, (∀ o ∈ Override.all, o.codePoint ≠ c) → patched[c]? = db[c]?) ∧
      (∀ o ∈ Override.all, ∀ record, db[o.codePoint]? = some record →
        patched[o.codePoint]? = some ⟨record.name, o.category⟩) ∧
      (∀ o ∈ Override.all, db[o.codePoint]? = none →
        patched[o.codePoint]? = some ⟨"<override>", o.category⟩) ∧
      patched.size = db.size + (Override.all.map Override.codePoint).countP (!db.contains ·) ∧
      patched.applyOverrides = .ok patched ∧
      ∀ c record, (∀ o ∈ Override.all, o.codePoint ≠ c) →
        applyOverrides (db.insert c record) = .ok (patched.insert c record) := by
  have distinct := Override.nodup_all
  refine ⟨_, db.applyOverrides_eq_ok, fun c apart => ?_, fun o member record found => ?_,
    fun o member missing => ?_, Override.size_foldl_patch db distinct, ?_,
    fun c record apart => ?_⟩
  · exact Override.getElem?_foldl_patch_of_ne db distinct apart
  · rw [Override.getElem?_foldl_patch_of_mem db distinct member, Override.patched, found]
    rfl
  · rw [Override.getElem?_foldl_patch_of_mem db distinct member, Override.patched, missing]
    rfl
  · rw [applyOverrides_eq_ok, Override.foldl_patch_twice db distinct]
  · rw [applyOverrides_eq_ok, Override.foldl_patch_insert db distinct apart]

def lowLine : Database := (∅ : Database).insert 0x5F ⟨"LOW LINE", .connectorPunctuation⟩

/-- The low line keeps its name, the dollar sign gets one, the other ten points are new as well, and a
letter may be written before or after. -/
theorem applyOverrides_exact_lowLine :
    ∃ patched, lowLine.applyOverrides = .ok patched ∧ patched[0x41]? = none ∧
      patched[0x5F]? = some ⟨"LOW LINE", .otherLetter⟩ ∧
      patched[0x24]? = some ⟨"<override>", .otherLetter⟩ ∧ patched.size = 12 ∧
      patched.applyOverrides = .ok patched ∧
      applyOverrides (lowLine.insert 0x41 ⟨"A", .uppercaseLetter⟩) =
        .ok (patched.insert 0x41 ⟨"A", .uppercaseLetter⟩) := by
  obtain ⟨patched, applied, others, named, unnamed, size, again, exchanged⟩ :=
    applyOverrides_exact lowLine
  have letter : ∀ o ∈ Override.all, o.codePoint ≠ 0x41 := by decide
  exact ⟨patched, applied, others 0x41 letter, named (.identifierStart 0x5F) (by decide) _ rfl,
    unnamed (.identifierStart 0x24) (by decide) rfl, size, again, exchanged 0x41 _ letter⟩

end Database

end LexicalRuns
