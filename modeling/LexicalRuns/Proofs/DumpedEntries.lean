import LexicalRuns.Proofs.RecordNames

/-! Dumps tell databases apart. A dump has a line for each entry, in the order of code points, and a line
gives its entry back: the code point and the category end at the first two spaces, and the rest of the
line is the name. Nothing but the entries decides what is written. -/
namespace LexicalRuns

namespace Text

theorem encode_injective {a b : String} (same : encode a = encode b) : a = b := by
  have decoded := congrArg decode? same
  rw [decode?_encode, decode?_encode] at decoded
  exact Option.some.inj decoded

namespace Hex

theorem space_not_mem_upper (width n : Nat) : ' ' ∉ (upper width n).toList := by
  have plain : ∀ d < 16, upperDigit d ≠ ' ' := by decide
  rw [upper, String.toList_ofList, List.mem_map]
  rintro ⟨d, member, isSpace⟩
  exact plain d (digits_lt _ n d member) isSpace

end Hex

end Text

theorem Category.space_not_mem_code (k : Category) : ' ' ∉ k.code.toList := by cases k <;> decide

theorem Category.inLine_code (k : Category) : Text.InLine k.code := by cases k <;> decide

namespace Database

theorem toList_dumpLine (c : Nat) (record : Record) :
    (dumpLine (c, record)).toList = 'U' :: '+' :: ((Text.Hex.upper 4 c).toList ++
      ' ' :: (record.category.code.toList ++ ' ' :: record.name.toList)) := by
  simp [dumpLine, CodePoint.label, String.toList_append]

theorem dumpLine_injective {a b : Nat × Record} (same : dumpLine a = dumpLine b) : a = b := by
  obtain ⟨c, name, k⟩ := a
  obtain ⟨d, other, l⟩ := b
  have characters := congrArg String.toList same
  rw [toList_dumpLine, toList_dumpLine, List.cons.injEq, List.cons.injEq] at characters
  obtain ⟨points, rest⟩ := Text.eq_of_append_cons (Text.Hex.space_not_mem_upper 4 c)
    (Text.Hex.space_not_mem_upper 4 d) characters.2.2
  obtain ⟨codes, names⟩ := Text.eq_of_append_cons k.space_not_mem_code l.space_not_mem_code rest
  obtain rfl := Text.Hex.upper_injective points
  obtain rfl := Category.code_injective (String.toList_injective codes)
  obtain rfl := String.toList_injective names
  rfl

theorem inLine_dumpLine {c : Nat} {record : Record} (name : Text.InLine record.name) :
    Text.InLine (dumpLine (c, record)) := by
  have label : Text.InLine (CodePoint.label c) :=
    Text.inLine_append.mpr ⟨by decide, Text.Hex.inLine_upper 4 c⟩
  simp only [dumpLine, Text.inLine_append, label, record.category.inLine_code, name, and_true,
    true_and]
  decide

theorem lines_dump {db : Database} (names : db.InLine) :
    Text.lines (Text.encode db.dump) = db.toList.map fun entry => Text.encode (dumpLine entry) := by
  have plain : ∀ line ∈ db.toList.map fun entry => Text.encode (dumpLine entry),
      Text.lineFeed ∉ line := by
    refine List.forall_mem_map.mpr fun (c, record) member => Text.not_mem_encode_iff.mpr ?_
    exact inLine_dumpLine (names c record (Std.ExtTreeMap.mem_toList_iff_getElem?_eq_some.mp member))
  have bytes : Text.encode db.dump =
      (db.toList.map fun entry => Text.encode (dumpLine entry)).flatMap (· ++ [Text.lineFeed]) := by
    rw [dump, Text.encode_join, List.flatMap_map, List.flatMap_map]
    simp only [Text.encode_append]
    rfl
  rw [bytes, Text.lines_flatMap _ plain]

theorem dump_injective {d e : Database} (names : d.InLine) (others : e.InLine)
    (same : Text.encode d.dump = Text.encode e.dump) : d = e := by
  have lines := congrArg Text.lines same
  rw [lines_dump names, lines_dump others] at lines
  have shown : Function.Injective fun entry => Text.encode (dumpLine entry) :=
    fun _ _ equal => dumpLine_injective (Text.encode_injective equal)
  exact Std.ExtTreeMap.toList_inj.mp (List.map_injective_iff.mpr shown lines)

/-- The database with these entries, written one after the other. -/
def ofEntries (entries : List (Nat × Record)) : Database :=
  entries.foldl (fun db entry => db.insert entry.1 entry.2) ∅

theorem getElem?_foldl_insert {entries : List (Nat × Record)}
    (distinct : (entries.map Prod.fst).Nodup) (db : Database) (c : Nat) (record : Record) :
    (entries.foldl (fun db entry => db.insert entry.1 entry.2) db)[c]? = some record ↔
      (c, record) ∈ entries ∨ c ∉ entries.map Prod.fst ∧ db[c]? = some record := by
  induction entries generalizing db with
  | nil => simp
  | cons entry rest ih =>
    obtain ⟨d, first⟩ := entry
    obtain ⟨fresh, distinct⟩ := List.nodup_cons.mp distinct
    rw [List.foldl_cons, ih distinct, List.mem_cons, List.map_cons, List.mem_cons,
      Std.ExtTreeMap.getElem?_insert]
    by_cases here : d = c
    · subst here
      have absent (other : Record) : (d, other) ∉ rest := fun member =>
        fresh (List.mem_map.mpr ⟨_, member, rfl⟩)
      simp [absent, fresh, eq_comm]
    · simp [here, Ne.symm here]

theorem ofEntries_of_perm {db : Database} {entries : List (Nat × Record)}
    (same : entries.Perm db.toList) : ofEntries entries = db := by
  have distinct : (entries.map Prod.fst).Nodup := by
    refine (same.map Prod.fst).nodup_iff.mpr ?_
    rw [Std.ExtTreeMap.map_fst_toList_eq_keys]
    exact Std.ExtTreeMap.ordered_keys.imp fun ascends => Nat.ne_of_lt (Nat.compare_eq_lt.mp ascends)
  apply Std.ExtTreeMap.ext_getElem?
  intro c
  apply Option.ext
  intro record
  rw [ofEntries, getElem?_foldl_insert distinct, same.mem_iff,
    Std.ExtTreeMap.mem_toList_iff_getElem?_eq_some]
  simp

/-- Whatever sorts the entries by code point puts them into this order, for no two have the same. -/
theorem eq_toList_of_ascending {db : Database} {entries : List (Nat × Record)}
    (same : entries.Perm db.toList) (ascending : entries.Pairwise fun a b => a.1 ≤ b.1) :
    entries = db.toList := by
  have ordered : db.toList.Pairwise fun a b => a.1 ≤ b.1 :=
    Std.ExtTreeMap.ordered_keys_toList.imp fun below => Nat.le_of_lt (Nat.compare_eq_lt.mp below)
  refine same.eq_of_pairwise (fun a b member other low high => ?_) ascending ordered
  have key : a.1 = b.1 := Nat.le_antisymm low high
  have first := Std.ExtTreeMap.mem_toList_iff_getElem?_eq_some.mp (same.mem_iff.mp member)
  have second := Std.ExtTreeMap.mem_toList_iff_getElem?_eq_some.mp other
  rw [key] at first
  exact Prod.ext key (Option.some.inj (first.symm.trans second))

/-- A dump is made by sorting the entries, in whatever order they are kept. -/
theorem dump_eq_of_perm {db : Database} {entries : List (Nat × Record)}
    (same : entries.Perm db.toList) :
    db.dump = String.join ((entries.mergeSort fun a b => a.1 ≤ b.1).map
      fun entry => dumpLine entry ++ "\n") := by
  have ascending : (entries.mergeSort fun a b => a.1 ≤ b.1).Pairwise fun a b => a.1 ≤ b.1 := by
    refine (List.pairwise_mergeSort (fun a b c first second => ?_) (fun a b => ?_) entries).imp
      of_decide_eq_true
    · exact decide_eq_true (Nat.le_trans (of_decide_eq_true first) (of_decide_eq_true second))
    · simpa using Nat.le_total a.1 b.1
  rw [dump, eq_toList_of_ascending ((entries.mergeSort_perm _).trans same) ascending]

/-- A dump is faithful as long as names stay within a line, as those that are read do, with the overrides
as well as without them: equal dumps are those of equal databases. It has a line for every entry, in
the order of code points and in whatever order they have been written. -/
theorem dump_faithful :
    (∀ bytes db, UnicodeData.read bytes = .ok db → db.InLine) ∧
    (∀ db patched : Database, db.InLine → db.applyOverrides = .ok patched → patched.InLine) ∧
    (∀ d e : Database, d.InLine → e.InLine → (Text.encode d.dump = Text.encode e.dump ↔ d = e)) ∧
    ∀ db : Database, db.InLine →
      ∃ entries : List (Nat × Record),
        Text.lines (Text.encode db.dump) = entries.map (fun entry => Text.encode (dumpLine entry)) ∧
        entries.length = db.size ∧ entries.Pairwise (fun a b => a.1 < b.1) ∧
        (∀ c record, (c, record) ∈ entries ↔ db[c]? = some record) ∧
        ∀ written, written.Perm entries → (ofEntries written).dump = db.dump := by
  refine ⟨fun _ _ => inLine_of_read, fun _ _ => InLine.applyOverrides, fun d e names others => ?_,
    fun db names => ⟨db.toList, lines_dump names, Std.ExtTreeMap.length_toList, ?_, ?_, ?_⟩⟩
  · exact ⟨dump_injective names others, fun same => same ▸ rfl⟩
  · exact Std.ExtTreeMap.ordered_keys_toList.imp fun ascends => Nat.compare_eq_lt.mp ascends
  · exact fun c record => Std.ExtTreeMap.mem_toList_iff_getElem?_eq_some
  · exact fun written same => by rw [ofEntries_of_perm same]

/-- One entry with a name like a second line, and two entries. -/
theorem dump_faithful_disguised :
    ∃ d e patched, UnicodeData.read (Text.encode "41;A U+0042 Lu B;Lu") = .ok d ∧
      UnicodeData.read (Text.encode "42;B;Lu\n41;A;Lu") = .ok e ∧
      Text.encode d.dump ≠ Text.encode e.dump ∧
      d.applyOverrides = .ok patched ∧ patched.InLine ∧
      ∃ entries : List (Nat × Record), Text.lines (Text.encode e.dump) =
          entries.map (fun entry => Text.encode (dumpLine entry)) ∧
        entries.length = 2 ∧ (0x41, ⟨"A", .uppercaseLetter⟩) ∈ entries ∧
        (ofEntries entries.reverse).dump = e.dump := by
  obtain ⟨d, one, single⟩ : ∃ d, UnicodeData.read (Text.encode "41;A U+0042 Lu B;Lu") = .ok d ∧
      d = (∅ : Database).insert 0x41 ⟨"A U+0042 Lu B", .uppercaseLetter⟩ := ⟨_, rfl, rfl⟩
  obtain ⟨e, two, pair⟩ : ∃ e, UnicodeData.read (Text.encode "42;B;Lu\n41;A;Lu") = .ok e ∧
      e = ((∅ : Database).insert 0x42 ⟨"B", .uppercaseLetter⟩).insert 0x41
        ⟨"A", .uppercaseLetter⟩ := ⟨_, rfl, rfl⟩
  have different : d ≠ e := by
    rintro rfl
    have found := congrArg (fun db : Database => db[0x42]?) (single.symm.trans pair)
    cases found
  obtain ⟨names, kept, tells, shows⟩ := dump_faithful
  obtain ⟨patched, applied, _⟩ := d.exists_applyOverrides
  obtain ⟨entries, lines, length, _, members, ordered⟩ := shows e (names _ e two)
  refine ⟨d, e, patched, one, two, fun same => ?_, applied, kept d patched (names _ d one) applied,
    entries, lines, ?_, ?_, ordered _ entries.reverse_perm⟩
  · exact different ((tells d e (names _ d one) (names _ e two)).mp same)
  · rw [length, pair]
    rfl
  · rw [members, pair]
    rfl

end Database

end LexicalRuns
