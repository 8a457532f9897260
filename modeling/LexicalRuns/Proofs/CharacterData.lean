import LexicalRuns.Proofs.ContentLines
import LexicalRuns.Proofs.EncodedText
import LexicalRuns.UnicodeData.Reader

/-! Character data as a language. The entries of a text are assignments one after another: an entry
that stands for itself, or the first and the last entry of a range. Reading accepts exactly these
texts, and of several assignments that cover a code point the last one counts. Between two lines the
reader holds back at most one entry, that of a range whose end is still to come. -/
namespace LexicalRuns.UnicodeData

/-- What one entry says, or two that are the ends of a range. -/
inductive Assignment where
  | single (codePoint : Nat) (name : String) (category : Category)
  | range (first last : Nat) (block : String) (category lastCategory : Category)
  deriving DecidableEq, Repr

namespace Assignment

def entries : Assignment → List Entry
  | .single c name category => [⟨c, .single name, category⟩]
  | .range a b block category lastCategory =>
    [⟨a, .first block, category⟩, ⟨b, .last block, lastCategory⟩]

def Valid : Assignment → Prop
  | .single .. => True
  | .range a b .. => a ≤ b

instance : DecidablePred Valid
  | .single .. => inferInstanceAs (Decidable True)
  | .range a b .. => inferInstanceAs (Decidable (a ≤ b))

def Covers : Assignment → Nat → Prop
  | .single c .., d => d = c
  | .range a b .., d => a ≤ d ∧ d ≤ b

/-- The record for a code point that is covered. In a range each has a name of its own, with its
number in at least four digits of upper case, and the category of the last entry does not count. -/
inductive Gives : Assignment → Nat → Record → Prop where
  | single (c : Nat) (name : String) (category : Category) (d : Nat) :
      Gives (.single c name category) d ⟨name, category⟩
  | range (a b : Nat) (block : String) (category lastCategory : Category) (d : Nat)
      (digits : List Char) (numeral : Text.Hex.Spells Text.Hex.upperAlphabet 4 d digits) :
      Gives (.range a b block category lastCategory) d
        ⟨block ++ "-" ++ String.ofList digits, category⟩

/-- What is found at a code point: the record from the last assignment that covers it. -/
inductive Found (as : List Assignment) (c : Nat) : Option Record → Prop where
  | none (bare : ∀ a ∈ as, ¬a.Covers c) : Found as c none
  | last (before : List Assignment) (a : Assignment) (after : List Assignment) (r : Record)
      (whole : as = before ++ a :: after) (covers : a.Covers c) (gives : a.Gives c r)
      (bare : ∀ b ∈ after, ¬b.Covers c) : Found as c (some r)

def record? : Assignment → Nat → Option Record
  | .single c name category, d => if d = c then some ⟨name, category⟩ else none
  | .range a b block category _, d =>
    if a ≤ d ∧ d ≤ b then some ⟨block ++ "-" ++ Text.Hex.upper 4 d, category⟩ else none

def lastRecord? (as : List Assignment) (c : Nat) : Option Record :=
  (as.filterMap (·.record? c)).getLast?

def write (db : Database) : Assignment → Database
  | .single c name category => db.insert c ⟨name, category⟩
  | .range a b block category _ =>
    db.fill a (b + 1 - a) fun c => ⟨block ++ "-" ++ Text.Hex.upper 4 c, category⟩

end Assignment

/-- The lines are text, and this is what they say. -/
def Carries (lines : List (List UInt8)) (es : List Entry) : Prop :=
  ∃ texts said, lines = texts.map Text.encode ∧ List.Forall₂ Says texts said ∧
    said.filterMap id = es

structure Describes (bytes : List UInt8) (as : List Assignment) : Prop where
  carries : Carries (Text.lines bytes) (as.flatMap Assignment.entries)
  valid : ∀ a ∈ as, a.Valid

theorem getElem?_fill (db : Database) (start count : Nat) (record : Nat → Record) (c : Nat) :
    (db.fill start count record)[c]? =
      if start ≤ c ∧ c < start + count then some (record c) else db[c]? := by
  unfold Database.fill
  induction count generalizing start db with
  | zero =>
    have outside : ¬(start ≤ c ∧ c < start + 0) := by omega
    rw [if_neg outside]
    rfl
  | succ count ih =>
    rw [List.range'_succ, List.foldl_cons, ih]
    by_cases later : start + 1 ≤ c ∧ c < start + 1 + count
    · have inside : start ≤ c ∧ c < start + (count + 1) := by omega
      rw [if_pos later, if_pos inside]
    · rw [if_neg later, Std.ExtTreeMap.getElem?_insert]
      by_cases here : start = c
      · simp [here]
      · have outside : ¬(start ≤ c ∧ c < start + (count + 1)) := by omega
        simp [here, outside]

namespace Assignment

theorem getElem?_write (db : Database) (a : Assignment) (c : Nat) :
    (write db a)[c]? = (a.record? c).or db[c]? := by
  cases a with
  | single d name category =>
    by_cases here : d = c
    · simp [write, record?, here]
    · simp [write, record?, Std.ExtTreeMap.getElem?_insert, here, Ne.symm here]
  | range a b block category =>
    have bounds : (a ≤ c ∧ c < a + (b + 1 - a)) ↔ a ≤ c ∧ c ≤ b := by omega
    simp only [write, record?, getElem?_fill, bounds]
    split <;> rfl

theorem lastRecord?_cons (a : Assignment) (as : List Assignment) (c : Nat) :
    lastRecord? (a :: as) c = (lastRecord? as c).or (a.record? c) := by
  unfold lastRecord?
  cases covered : a.record? c with
  | none => simp only [List.filterMap_cons, covered, Option.or_none]
  | some r =>
    simp only [List.filterMap_cons, covered, List.getLast?_cons]
    cases (as.filterMap (·.record? c)).getLast? <;> rfl

theorem getElem?_foldl_write (db : Database) (as : List Assignment) (c : Nat) :
    (as.foldl write db)[c]? = (lastRecord? as c).or db[c]? := by
  induction as generalizing db with
  | nil => rfl
  | cons a as ih => rw [List.foldl_cons, ih, getElem?_write, lastRecord?_cons, Option.or_assoc]

theorem gives_range_iff {a b d : Nat} {block : String} {category lastCategory : Category}
    {r : Record} :
    (range a b block category lastCategory).Gives d r ↔
      r = ⟨block ++ "-" ++ Text.Hex.upper 4 d, category⟩ := by
  have written := Text.Hex.spells_upper (by decide : 0 < 4) d
  constructor
  · intro gives
    cases gives with
    | range _ _ _ _ _ _ digits numeral => rw [numeral.unique written, String.ofList_toList]
  · rintro rfl
    have gives := Gives.range a b block category lastCategory d _ written
    rwa [String.ofList_toList] at gives

theorem record?_eq_some_iff {a : Assignment} {c : Nat} {r : Record} :
    a.record? c = some r ↔ a.Covers c ∧ a.Gives c r := by
  cases a with
  | single d name category =>
    constructor
    · intro found
      obtain ⟨here, same⟩ := Option.ite_none_right_eq_some.mp found
      obtain rfl := Option.some.inj same
      exact ⟨here, .single d name category c⟩
    · rintro ⟨here, ⟨⟩⟩
      exact if_pos here
  | range a b block category lastCategory =>
    rw [gives_range_iff]
    constructor
    · intro found
      obtain ⟨inside, same⟩ := Option.ite_none_right_eq_some.mp found
      exact ⟨inside, (Option.some.inj same).symm⟩
    · rintro ⟨inside, rfl⟩
      exact if_pos inside

theorem record?_eq_none_iff {a : Assignment} {c : Nat} : a.record? c = none ↔ ¬a.Covers c := by
  cases a <;> exact ite_eq_right_iff.trans (by simp [Covers])

theorem found_iff {as : List Assignment} {c : Nat} {o : Option Record} :
    Found as c o ↔ o = lastRecord? as c := by
  have bare (others : List Assignment) :
      others.filterMap (·.record? c) = [] ↔ ∀ a ∈ others, ¬a.Covers c := by
    simp only [List.filterMap_eq_nil_iff, record?_eq_none_iff]
  constructor
  · intro found
    cases found with
    | none free => rw [lastRecord?, (bare as).mpr free, List.getLast?_nil]
    | last before a after r whole covers gives free =>
      have record := record?_eq_some_iff.mpr ⟨covers, gives⟩
      simp only [lastRecord?, whole, List.filterMap_append, List.filterMap_cons, record,
        (bare after).mpr free, List.getLast?_concat]
  · rintro rfl
    cases last : lastRecord? as c with
    | none => exact .none ((bare as).mp (List.getLast?_eq_none_iff.mp last))
    | some r =>
      -- the assignment that gives the last record, with those after it that give none
      obtain ⟨records, ends⟩ := List.getLast?_eq_some_iff.mp last
      obtain ⟨front, back, rfl, _, final⟩ := List.filterMap_eq_append_iff.mp ends
      obtain ⟨skipped, a, after, rfl, _, record, none⟩ := List.filterMap_eq_cons_iff.mp final
      obtain ⟨covers, gives⟩ := record?_eq_some_iff.mp record
      exact .last (front ++ skipped) a after r (List.append_assoc _ _ _).symm covers gives
        ((bare after).mp none)

section Entries

variable {as : List Assignment} {es : List Entry} {c : Nat} {category : Category}

theorem cons_single_iff {name : String} :
    ⟨c, .single name, category⟩ :: es = as.flatMap entries ↔
      ∃ rest, as = .single c name category :: rest ∧ es = rest.flatMap entries := by
  match as with
  | [] => simp
  | .single d other k :: rest =>
    simp only [List.flatMap_cons, entries, List.singleton_append, List.cons.injEq, Entry.mk.injEq,
      Naming.single.injEq]
    constructor
    · rintro ⟨⟨rfl, rfl, rfl⟩, later⟩
      exact ⟨rest, ⟨rfl, rfl⟩, later⟩
    · rintro ⟨_, ⟨⟨⟩, rfl⟩, later⟩
      exact ⟨⟨rfl, rfl, rfl⟩, later⟩
  | .range .. :: rest => simp [entries]

theorem cons_first_iff {block : String} :
    ⟨c, .first block, category⟩ :: es = as.flatMap entries ↔
      ∃ b lastCategory rest, as = .range c b block category lastCategory :: rest ∧
        es = ⟨b, .last block, lastCategory⟩ :: rest.flatMap entries := by
  match as with
  | [] => simp
  | .single d other k :: rest => simp [entries]
  | .range d b other k l :: rest =>
    simp only [List.flatMap_cons, entries, List.cons_append, List.nil_append, List.cons.injEq,
      Entry.mk.injEq, Naming.first.injEq]
    constructor
    · rintro ⟨⟨rfl, rfl, rfl⟩, later⟩
      exact ⟨b, l, rest, ⟨rfl, rfl⟩, later⟩
    · rintro ⟨_, _, _, ⟨⟨⟩, rfl⟩, later⟩
      exact ⟨⟨rfl, rfl, rfl⟩, later⟩

theorem cons_last_ne {block : String} :
    ⟨c, .last block, category⟩ :: es ≠ as.flatMap entries := by
  match as with
  | [] => simp
  | .single d other k :: rest => simp [entries]
  | .range .. :: rest => simp [entries]

end Entries

end Assignment

section Lines

variable {line : List UInt8} {rest : List (List UInt8)} {es : List Entry}

theorem carries_nil_iff : Carries [] es ↔ es = [] := by
  constructor
  · rintro ⟨texts, said, none, told, rfl⟩
    obtain rfl := List.map_eq_nil_iff.mp none.symm
    cases told
    rfl
  · rintro rfl
    exact ⟨[], [], rfl, .nil, rfl⟩

/-- The first line is blank or shows the first entry. -/
theorem carries_cons_iff (number : Nat) :
    Carries (line :: rest) es ↔
      (readLine number line = .ok none ∧ Carries rest es) ∨
      ∃ e later, readLine number line = .ok (some e) ∧ es = e :: later ∧ Carries rest later := by
  simp only [readLine_eq_ok_iff]
  constructor
  · rintro ⟨texts, said, whole, told, rfl⟩
    obtain ⟨text, texts, rfl, rfl, rfl⟩ := List.map_eq_cons_iff.mp whole.symm
    obtain ⟨first, later, toldFirst, toldLater, rfl⟩ := List.forall₂_cons_left_iff.mp told
    cases first with
    | none => exact .inl ⟨⟨text, rfl, toldFirst⟩, texts, later, rfl, toldLater, rfl⟩
    | some e => exact .inr ⟨e, _, ⟨text, rfl, toldFirst⟩, rfl, texts, later, rfl, toldLater, rfl⟩
  · rintro (⟨⟨text, rfl, told⟩, texts, said, rfl, others, rfl⟩ |
      ⟨e, _, ⟨text, rfl, told⟩, rfl, texts, said, rfl, others, rfl⟩)
    · exact ⟨text :: texts, none :: said, rfl, .cons told others, rfl⟩
    · exact ⟨text :: texts, some e :: said, rfl, .cons told others, rfl⟩

end Lines

namespace Progress

/-- The entry that is held back. -/
def waiting (p : Progress) : List Entry :=
  match p.opened with
  | none => []
  | some r => [⟨r.start, .first r.block, r.category⟩]

/-- With these entries the text is complete and gives a database. -/
def Completes (p : Progress) (es : List Entry) (db : Database) : Prop :=
  ∃ as : List Assignment, p.waiting ++ es = as.flatMap Assignment.entries ∧ (∀ a ∈ as, a.Valid) ∧
    db = as.foldl Assignment.write p.database

/-- An open range is completed by its last entry, and that is the next one. -/
theorem completes_open_iff {before : Database} {r : OpenRange} {es : List Entry} {db : Database} :
    Completes ⟨before, some r⟩ es db ↔
      ∃ b category later, es = ⟨b, .last r.block, category⟩ :: later ∧ r.start ≤ b ∧
        Completes ⟨before.fill r.start (b + 1 - r.start) (rangeRecord r), none⟩ later db := by
  simp only [Completes, waiting, List.cons_append, List.nil_append, Assignment.cons_first_iff]
  constructor
  · rintro ⟨_, ⟨b, category, rest, rfl, rfl⟩, valid, rfl⟩
    obtain ⟨le, valid⟩ := List.forall_mem_cons.mp valid
    exact ⟨b, category, _, rfl, le, rest, rfl, valid, rfl⟩
  · rintro ⟨b, category, _, rfl, le, rest, rfl, valid, rfl⟩
    exact ⟨.range r.start b r.block r.category category :: rest, ⟨b, category, rest, rfl, rfl⟩,
      List.forall_mem_cons.mpr ⟨le, valid⟩, rfl⟩

theorem completes_nil_iff (p : Progress) (db : Database) :
    p.Completes [] db ↔ p.finish = .ok db := by
  obtain ⟨before, opened⟩ := p
  cases opened with
  | none =>
    simp only [Completes, waiting, finish, List.append_nil, Except.ok.injEq]
    constructor
    · rintro ⟨as, none, _, rfl⟩
      match as with
      | [] => rfl
      | .single .. :: _ | .range .. :: _ => simp [Assignment.entries] at none
    · rintro rfl
      exact ⟨[], rfl, nofun, rfl⟩
  | some r => simp [completes_open_iff, finish]

/-- Taking in an entry moves it from those to come to those that have been, and what is refused
is the beginning of no text. -/
theorem completes_cons_iff (p : Progress) (number : Nat) (e : Entry) (es : List Entry)
    (db : Database) :
    p.Completes (e :: es) db ↔ ∃ q, p.add number e = .ok q ∧ q.Completes es db := by
  obtain ⟨before, opened⟩ := p
  obtain ⟨c, naming, category⟩ := e
  cases opened with
  | none =>
    cases naming with
    | single name =>
      simp only [Completes, waiting, add, List.nil_append, Assignment.cons_single_iff,
        Except.ok.injEq, exists_eq_left']
      constructor
      · rintro ⟨_, ⟨rest, rfl, later⟩, valid, rfl⟩
        exact ⟨rest, later, (List.forall_mem_cons.mp valid).2, rfl⟩
      · rintro ⟨rest, later, valid, rfl⟩
        exact ⟨.single c name category :: rest, ⟨rest, rfl, later⟩,
          List.forall_mem_cons.mpr ⟨trivial, valid⟩, rfl⟩
    | first block =>
      -- the entry is held back now, and stands in front of the others as before
      simp only [add, Except.ok.injEq, exists_eq_left']
      exact Iff.rfl
    | last block =>
      simp only [Completes, waiting, add, List.nil_append]
      refine ⟨?_, nofun⟩
      rintro ⟨as, marked, _⟩
      exact absurd marked Assignment.cons_last_ne
  | some r =>
    rw [completes_open_iff]
    cases naming with
    | single name => simp [add]
    | first block => simp [add]
    | last block =>
      simp only [add]
      split
      next agrees =>
        obtain ⟨rfl, le⟩ := agrees
        simp only [Except.ok.injEq, exists_eq_left']
        constructor
        · rintro ⟨_, _, _, ⟨⟩, _, completes⟩
          exact completes
        · intro completes
          exact ⟨c, category, es, rfl, le, completes⟩
      next differs =>
        refine ⟨?_, nofun⟩
        rintro ⟨_, _, _, ⟨⟩, le, _⟩
        exact absurd ⟨rfl, le⟩ differs

theorem addLines_eq_ok_iff (p : Progress) (number : Nat) (lines : List (List UInt8))
    (db : Database) :
    (p.addLines number lines).bind finish = .ok db ↔ ∃ es, Carries lines es ∧ p.Completes es db := by
  induction lines generalizing p number with
  | nil =>
    simp only [carries_nil_iff, exists_eq_left, completes_nil_iff]
    rfl
  | cons line rest ih =>
    simp only [addLines, carries_cons_iff number]
    cases read : readLine number line with
    | error fault => simp [Except.bind]
    | ok entry =>
      cases entry with
      | none => simp [ih]
      | some e =>
        cases added : p.add number e with
        | error fault => simp [Except.bind, completes_cons_iff p number, added]
        | ok q => simp [ih, completes_cons_iff p number, added]

end Progress

theorem read_eq_ok_iff (bytes : List UInt8) (db : Database) :
    read bytes = .ok db ↔ ∃ as, Describes bytes as ∧ db = as.foldl Assignment.write ∅ := by
  rw [read, Progress.addLines_eq_ok_iff]
  constructor
  · rintro ⟨_, carries, as, rfl, valid, made⟩
    exact ⟨as, ⟨carries, valid⟩, made⟩
  · rintro ⟨as, describes, made⟩
    exact ⟨_, describes.carries, as, rfl, describes.valid, made⟩

/-- A text is read if and only if it consists of assignments, and then each code point has the
record of the last of them that covers it. -/
theorem read_describes (bytes : List UInt8) :
    ((∃ db, read bytes = .ok db) ↔ ∃ as, Describes bytes as) ∧
    ∀ as, Describes bytes as →
      ∃ db, read bytes = .ok db ∧ ∀ c, Assignment.Found as c db[c]? := by
  simp only [read_eq_ok_iff]
  constructor
  · constructor
    · rintro ⟨_, as, describes, _⟩
      exact ⟨as, describes⟩
    · rintro ⟨as, describes⟩
      exact ⟨_, as, describes, rfl⟩
  · intro as describes
    refine ⟨_, ⟨as, describes, rfl⟩, fun c => Assignment.found_iff.mpr ?_⟩
    rw [Assignment.getElem?_foldl_write, Std.ExtTreeMap.getElem?_empty, Option.or_none]

/-- A letter, a range with a comment and a blank line in it, a part of the range once more behind
white space, an entry of each category, and the first of a range whose numbers get longer. -/
def rewrittenLines : List String := [
  "41;A;Lu", "4E00;<B, First>;Lo", "# inside", "", " +4e02;<B, Last>;Cn;0\r",
  "\u3000\t4E01;C;Nd\u2003",
  "100;;Lu", "101;;Ll", "102;;Lt", "103;;Lm", "104;;Lo", "105;;Mn", "106;;Mc", "107;;Me",
  "108;;Nd", "109;;Nl", "10A;;No", "10B;;Pc", "10C;;Pd", "10D;;Ps", "10E;;Pe", "10F;;Pi",
  "110;;Pf", "111;;Po", "112;;Sm", "113;;Sc", "114;;Sk", "115;;So", "116;;Zs", "117;;Zl",
  "118;;Zp", "119;;Cc", "11A;;Cf", "11B;;Cs", "11C;;Co", "11D;;Cn",
  "FFFF;<D, First>;Co"]

/-- The last line has no line feed. -/
def rewritten : List UInt8 :=
  (rewrittenLines.map Text.encode).flatMap (· ++ [Text.lineFeed]) ++
    Text.encode "10FFFF;<D, Last>;Co"

def rewrittenAs : List Assignment := [
  .single 0x41 "A" .uppercaseLetter,
  .range 0x4E00 0x4E02 "B" .otherLetter .unassigned,
  .single 0x4E01 "C" .decimalNumber] ++
  Category.all.mapIdx (fun i k => .single (0x100 + i) "" k) ++
  [.range 0xFFFF 0x10FFFF "D" .privateUse .privateUse]

/-- The last entry counts where it stands, and the range around it. -/
theorem read_describes_rewritten :
    Describes rewritten rewrittenAs ∧
      ∃ db, read rewritten = .ok db ∧
        db[0x41]? = some ⟨"A", .uppercaseLetter⟩ ∧ db[0x42]? = none ∧
        db[0x4E01]? = some ⟨"C", .decimalNumber⟩ ∧ db[0x4E02]? = some ⟨"B-4E02", .otherLetter⟩ ∧
        db[0xFFFF]? = some ⟨"D-FFFF", .privateUse⟩ ∧
        db[0x10000]? = some ⟨"D-10000", .privateUse⟩ ∧
        db[0x10FFFF]? = some ⟨"D-10FFFF", .privateUse⟩ := by
  let es := rewrittenAs.flatMap Assignment.entries
  let said := (es.take 2).map some ++ [none, none] ++ (es.drop 2).map some
  have plain : ∀ line ∈ rewrittenLines.map Text.encode, Text.lineFeed ∉ line := by
    simp only [List.forall_mem_map, Text.lineFeed_mem_encode_iff]
    decide
  have lines : Text.lines rewritten =
      (rewrittenLines ++ ["10FFFF;<D, Last>;Co"]).map Text.encode := by
    rw [rewritten, Text.lines_flatMap_append _ plain, List.map_append]
    rfl
  have told : List.Forall₂ (fun line e => Entry.ofLine? line = .ok e)
      (rewrittenLines ++ ["10FFFF;<D, Last>;Co"]) said := by
    have read : (rewrittenLines ++ ["10FFFF;<D, Last>;Co"]).map Entry.ofLine? =
        said.map .ok := rfl
    rwa [← List.forall₂_eq_eq_eq, List.forall₂_map_left_iff, List.forall₂_map_right_iff] at read
  have carries : Carries (Text.lines rewritten) es :=
    ⟨_, said, lines, told.imp fun _ _ => ofLine?_eq_ok_iff.mp, rfl⟩
  have describes : Describes rewritten rewrittenAs := ⟨carries, by decide⟩
  obtain ⟨db, made, found⟩ := (read_describes rewritten).2 rewrittenAs describes
  have records (c : Nat) : db[c]? = Assignment.lastRecord? rewrittenAs c :=
    Assignment.found_iff.mp (found c)
  exact ⟨describes, db, made, records 0x41, records 0x42, records 0x4E01, records 0x4E02,
    records 0xFFFF, records 0x10000, records 0x10FFFF⟩

end LexicalRuns.UnicodeData
