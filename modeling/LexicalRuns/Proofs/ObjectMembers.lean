import LexicalRuns.Artifact.Document.Structure
import LexicalRuns.Proofs.SkippedValues

/-! Objects whose members may come in any order. Reading a member either fills a field, which can be
done once, or changes nothing. So the order does not matter as long as nothing fails, a field that
no member fills is missing, and one that two members fill is a duplicate. -/
namespace LexicalRuns.Artifact.Document

open Json

/-- The reader takes these tokens and no more, with the same outcome before all other tokens. -/
def Yields (read : List Token → Reading (α × List Token)) (ts : List Token) (outcome : Reading α) :
    Prop :=
  ∀ rest, read (ts ++ rest) = outcome.map (·, rest)

/-- Goes on from one member of an object to the next. -/
def turn (member : State → String → List Token → Reading (State × List Token))
    (finish : State → Reading Result)
    (members : State → Bool → List Token → Reading (Result × List Token))
    (s : State) (first : Bool) (ts : List Token) : Reading (Result × List Token) :=
  match nextMember first ts with
  | .error fault => .error fault
  | .ok (.done rest) => (finish s).map (·, rest)
  | .ok (.field key tail) =>
    match member s key tail with
    | .error fault => .error fault
    | .ok (t, rest) => members t false rest

/-- A reader that goes through an object, and the fields of its state. -/
structure ObjectReader (State Field Result : Type) where
  empty : State
  member : State → String → List Token → Reading (State × List Token)
  finish : State → Reading Result
  members : State → Bool → List Token → Reading (Result × List Token)
  members_eq : ∀ s first ts, members s first ts = turn member finish members s first ts
  /-- The keys that are known; other members are passed over. -/
  fields : List String
  member_other : ∀ s {key v}, key ∉ fields → IsValue v →
    Yields (fun ts => member s key (.colon :: ts)) v (.ok s)
  name : Field → String
  put : State → Field → Reading State
  /-- Fields do not interfere. -/
  put_comm : ∀ {s t u x y}, put s x = .ok t → put t y = .ok u →
    ∃ v, put s y = .ok v ∧ put v x = .ok u
  /-- A field that is filled stays filled. -/
  put_again : ∀ {s t x}, put s x = .ok t → put t x = wrong (.duplicateField (name x))
  /-- Before the last field is filled, it is the one that is missing. -/
  finish_before : ∀ {s t x r}, put s x = .ok t → finish t = .ok r →
    finish s = wrong (.missingField (name x))

/-- The parts of a list or an object that remain to be read, after a comma each but the first. -/
def remaining (first : Bool) (parts : List (List Token)) : List Token :=
  if first then separated parts else parts.flatMap (.comma :: ·)

theorem nextMember_cons (first : Bool) (p : Pair) (ps : List Pair) (rest : List Token) :
    nextMember first (remaining first ((p :: ps).map Pair.tokens) ++ rest) =
      readKey (p.tokens ++ (remaining false (ps.map Pair.tokens) ++ rest)) := by
  cases first <;> simp [remaining, separated, Pair.tokens, nextMember]

theorem nextMember_nil (first : Bool) (rest : List Token) :
    nextMember first (remaining first [] ++ .closeObject :: rest) = .ok (.done rest) := by
  cases first <;> rfl

/-! ### Objects that differ in their members -/

/-- Members in another order, with further ones whose keys are not among the fields. -/
def Extends (fields : List String) (ps qs : List Pair) : Prop :=
  ∃ added : List Pair,
    (∀ p ∈ added, IsValue p.value ∧ ∃ key, content p.name none = .ok key ∧ key ∉ fields) ∧
      qs.Perm (ps ++ added)

inductive Lacks (field : String) : List Pair → List Pair → Prop
  | intro {before p after} (named : content p.name none = .ok field) :
      Lacks field (before ++ p :: after) (before ++ after)

inductive Doubles (field : String) : List Pair → List Pair → Prop
  | intro {before p q after} (member : p ∈ before ++ after)
      (named : content p.name none = .ok field) (again : content q.name none = .ok field)
      (value : q.value = p.value) : Doubles field (before ++ after) (before ++ q :: after)

namespace ObjectReader

variable {State Field Result : Type} (R : ObjectReader State Field Result)

/-- What a member does to the state that fills this field, or none. -/
def take (s : State) : Option Field → Reading State
  | none => .ok s
  | some x => R.put s x

def step (s : State) (p : Pair) : Reading State :=
  match content p.name none with
  | .error d => broken d
  | .ok key => (R.member s key (.colon :: p.value)).map Prod.fst

def outcome (ps : List Pair) : Reading Result := ps.foldlM R.step R.empty >>= R.finish

def IsKey (key : String) : Option Field → Prop
  | none => key ∉ R.fields
  | some x => key = R.name x

/-- The member fills this field, or none, whatever comes after it. -/
def Holds (p : Pair) (x : Option Field) : Prop :=
  ∃ key, content p.name none = .ok key ∧ R.IsKey key x ∧
    ∀ s, Yields (fun ts => R.member s key (.colon :: ts)) p.value (R.take s x)

structure Readable (p : Pair) : Prop where
  isValue : IsValue p.value
  holds : ∃ x, R.Holds p x

/-- That the member has been read once shows this. -/
def Shows (p : Pair) (fact : Prop) : Prop :=
  ∀ {key s rest t tail}, content p.name none = .ok key →
    R.member s key (.colon :: (p.value ++ rest)) = .ok (t, tail) → fact

variable {R} {p q : Pair} {ps qs before after : List Pair} {s t u : State} {x : Option Field}
  {y : Field} {r : Result}

theorem Holds.step (holds : R.Holds p x) (s : State) : R.step s p = R.take s x := by
  obtain ⟨key, named, -, reads⟩ := holds
  have alone := reads s []
  simp only [List.append_nil] at alone
  rw [ObjectReader.step, named]
  simp only [alone]
  cases R.take s x <;> rfl

theorem holds_other {key : String} (named : content p.name none = .ok key)
    (unknown : key ∉ R.fields) (isValue : IsValue p.value) : R.Holds p none :=
  ⟨key, named, unknown, fun s => R.member_other s unknown isValue⟩

theorem Holds.of_same (holds : R.Holds p x) (name : content q.name none = content p.name none)
    (value : q.value = p.value) : R.Holds q x := by
  obtain ⟨key, named, isKey, reads⟩ := holds
  exact ⟨key, name.trans named, isKey, value ▸ reads⟩

theorem Readable.exists_field (readable : R.Readable p) {field : String}
    (named : content p.name none = .ok field) (known : field ∈ R.fields) :
    ∃ y, R.Holds p (some y) ∧ field = R.name y := by
  obtain ⟨-, x, holds⟩ := readable
  obtain ⟨key, named', isKey, -⟩ := id holds
  rw [named] at named'
  cases named'
  cases x with
  | none => exact absurd known isKey
  | some y => exact ⟨y, holds, isKey⟩

/-! ### Going through the tokens -/

theorem members_cons (readable : R.Readable p) (s : State) (first : Bool) (ps : List Pair)
    (rest : List Token) :
    R.members s first (remaining first ((p :: ps).map Pair.tokens) ++ rest) =
      R.step s p >>= fun t => R.members t false (remaining false (ps.map Pair.tokens) ++ rest) := by
  obtain ⟨-, x, holds⟩ := readable
  obtain ⟨key, named, -, reads⟩ := id holds
  have member := reads s (remaining false (ps.map Pair.tokens) ++ rest)
  rw [members_eq, turn, nextMember_cons, holds.step]
  simp only [Pair.tokens, List.cons_append, readKey, named, member]
  cases R.take s x <;> rfl

theorem members_pairs (readable : ∀ p ∈ ps, R.Readable p) (s : State) (first : Bool) :
    Yields (R.members s first) (remaining first (ps.map Pair.tokens) ++ [.closeObject])
      (ps.foldlM R.step s >>= R.finish) := by
  intro rest
  rw [List.append_assoc, List.singleton_append]
  induction ps generalizing s first with
  | nil =>
    rw [members_eq, turn, List.map_nil, nextMember_nil]
    rfl
  | cons p later ih =>
    obtain ⟨here, readable⟩ := List.forall_mem_cons.mp readable
    rw [members_cons here, List.foldlM_cons]
    cases R.step s p with
    | error => rfl
    | ok t => exact ih readable t false

/-- What reading a member shows holds of every member of an object that has been read. -/
theorem forall_of_members {Item : Type} {pair : Item → Pair} {fact : Item → Prop}
    {items : List Item} (shows : ∀ i ∈ items, R.Shows (pair i) (fact i))
    (readable : ∀ i, fact i → R.Readable (pair i)) {first : Bool} {rest tail : List Token}
    (read : R.members s first
      (remaining first ((items.map pair).map Pair.tokens) ++ .closeObject :: rest) =
        .ok (r, tail)) : ∀ i ∈ items, fact i := by
  induction items generalizing s first with
  | nil => exact List.forall_mem_nil _
  | cons i later ih =>
    obtain ⟨here, later⟩ := List.forall_mem_cons.mp shows
    have this : fact i := by
      rw [members_eq, turn, List.map_cons, nextMember_cons] at read
      simp only [Pair.tokens, List.cons_append, readKey] at read
      cases named : content (pair i).name none with
      | error d =>
        rw [named] at read
        cases read
      | ok key =>
        simp only [named] at read
        split at read
        next => cases read
        next member => exact here named member
    rw [List.map_cons, members_cons (readable i this)] at read
    obtain ⟨t, -, read⟩ := of_bind_eq_ok read
    exact List.forall_mem_cons.mpr ⟨this, ih later read⟩

/-! ### The order of the members -/

theorem step_comm (first : R.Readable p) (second : R.Readable q) (one : R.step s p = .ok t)
    (two : R.step t q = .ok u) : ∃ v, R.step s q = .ok v ∧ R.step v p = .ok u := by
  obtain ⟨-, x, first⟩ := first
  obtain ⟨-, y, second⟩ := second
  rw [first.step] at one
  rw [second.step] at two
  simp only [first.step, second.step]
  match x, y with
  | none, _ =>
    cases one
    exact ⟨u, two, rfl⟩
  | some _, none =>
    cases two
    exact ⟨s, rfl, one⟩
  | some _, some _ => exact R.put_comm one two

theorem foldlM_perm (perm : ps.Perm qs) (readable : ∀ p ∈ ps, R.Readable p)
    (read : ps.foldlM R.step s = .ok t) : qs.foldlM R.step s = .ok t := by
  induction perm generalizing s with
  | nil => exact read
  | cons p _ ih =>
    obtain ⟨-, readable⟩ := List.forall_mem_cons.mp readable
    rw [List.foldlM_cons] at read ⊢
    obtain ⟨v, here, read⟩ := of_bind_eq_ok read
    rw [here]
    exact ih readable read
  | swap q p _ =>
    obtain ⟨first, readable⟩ := List.forall_mem_cons.mp readable
    obtain ⟨second, -⟩ := List.forall_mem_cons.mp readable
    simp only [List.foldlM_cons] at read ⊢
    obtain ⟨v, one, read⟩ := of_bind_eq_ok read
    obtain ⟨w, two, read⟩ := of_bind_eq_ok read
    obtain ⟨v', one, two⟩ := step_comm first second one two
    rw [one]
    change (R.step v' p >>= fun t => _) = _
    rw [two]
    exact read
  | trans perm _ ih ih' =>
    exact ih' (fun p member => readable p (perm.mem_iff.mpr member)) (ih readable read)

theorem foldlM_others (others : ∀ p ∈ ps, R.Holds p none) : ps.foldlM R.step s = .ok s := by
  induction ps with
  | nil => rfl
  | cons p later ih =>
    obtain ⟨here, others⟩ := List.forall_mem_cons.mp others
    rw [List.foldlM_cons, here.step]
    exact ih others

theorem exists_foldlM (accepted : R.outcome (ps ++ qs) = .ok r) :
    ∃ t u, ps.foldlM R.step R.empty = .ok t ∧ qs.foldlM R.step t = .ok u ∧ R.finish u = .ok r := by
  rw [outcome, List.foldlM_append] at accepted
  obtain ⟨u, read, finished⟩ := of_bind_eq_ok accepted
  obtain ⟨t, first, second⟩ := of_bind_eq_ok read
  exact ⟨t, u, first, second, finished⟩

theorem outcome_of_perm (perm : ps.Perm qs) (readable : ∀ p ∈ ps, R.Readable p)
    (accepted : R.outcome ps = .ok r) : R.outcome qs = .ok r := by
  obtain ⟨t, read, finished⟩ := of_bind_eq_ok accepted
  rw [outcome, foldlM_perm perm readable read]
  exact finished

theorem outcome_extends (readable : ∀ p ∈ ps, R.Readable p) (extended : Extends R.fields ps qs)
    (accepted : R.outcome ps = .ok r) : (∀ q ∈ qs, R.Readable q) ∧ R.outcome qs = .ok r := by
  obtain ⟨added, unknown, perm⟩ := extended
  have others : ∀ p ∈ added, R.Holds p none := fun p member => by
    obtain ⟨isValue, key, named, notField⟩ := unknown p member
    exact holds_other named notField isValue
  have all : ∀ p ∈ ps ++ added, R.Readable p :=
    List.forall_mem_append.mpr
      ⟨readable, fun p member => ⟨(unknown p member).1, none, others p member⟩⟩
  refine ⟨fun q member => all q (perm.mem_iff.mp member), outcome_of_perm perm.symm all ?_⟩
  obtain ⟨t, read, finished⟩ := of_bind_eq_ok accepted
  rw [outcome, List.foldlM_append, read]
  exact (congrArg (· >>= R.finish) (foldlM_others others)).trans finished

/-- A member that fills a field might as well be read last. -/
theorem exists_put_last (readable : ∀ q ∈ before ++ p :: after, R.Readable q)
    (holds : R.Holds p (some y)) (read : (before ++ p :: after).foldlM R.step s = .ok t) :
    ∃ u, (before ++ after).foldlM R.step s = .ok u ∧ R.put u y = .ok t := by
  have last : (before ++ p :: after).Perm ((before ++ after) ++ [p]) :=
    List.perm_middle.trans (List.perm_append_singleton p _).symm
  have read := foldlM_perm last readable read
  rw [List.foldlM_append] at read
  obtain ⟨u, first, filled⟩ := of_bind_eq_ok read
  simp only [List.foldlM_cons, List.foldlM_nil, bind_pure, holds.step] at filled
  exact ⟨u, first, filled⟩

theorem outcome_lacks {field : String} (known : field ∈ R.fields)
    (readable : ∀ p ∈ ps, R.Readable p) (lacks : Lacks field ps qs)
    (accepted : R.outcome ps = .ok r) :
    (∀ q ∈ qs, R.Readable q) ∧ R.outcome qs = wrong (.missingField field) := by
  obtain ⟨named⟩ := lacks
  obtain ⟨first, second⟩ := List.forall_mem_append.mp readable
  obtain ⟨here, second⟩ := List.forall_mem_cons.mp second
  obtain ⟨y, holds, rfl⟩ := here.exists_field named known
  refine ⟨List.forall_mem_append.mpr ⟨first, second⟩, ?_⟩
  obtain ⟨t, read, finished⟩ := of_bind_eq_ok accepted
  obtain ⟨u, read, filled⟩ := exists_put_last readable holds read
  rw [outcome, read]
  exact R.finish_before filled finished

/-- A field that one member has filled cannot be filled by another. -/
theorem step_again (readable : ∀ q ∈ ps, R.Readable q) (member : p ∈ ps)
    (holds : R.Holds p (some y)) (again : R.Holds q (some y))
    (read : ps.foldlM R.step s = .ok t) :
    R.step t q = wrong (.duplicateField (R.name y)) := by
  obtain ⟨before, after, rfl⟩ := List.append_of_mem member
  obtain ⟨u, -, filled⟩ := exists_put_last readable holds read
  rw [again.step]
  exact R.put_again filled

theorem outcome_of_step (read : before.foldlM R.step R.empty = .ok t) {fault : Json.Fault}
    (fails : R.step t q = .error fault) : R.outcome (before ++ q :: after) = .error fault := by
  rw [outcome, List.foldlM_append, read]
  change (List.foldlM R.step t (q :: after) >>= R.finish) = _
  rw [List.foldlM_cons, fails]
  rfl

/-- The second of two members for one field is the one that fails, wherever the new one stands. -/
theorem outcome_doubles {field : String} (known : field ∈ R.fields)
    (readable : ∀ p ∈ ps, R.Readable p) (doubles : Doubles field ps qs)
    (accepted : R.outcome ps = .ok r) :
    (∀ q ∈ qs, R.Readable q) ∧ R.outcome qs = wrong (.duplicateField field) := by
  obtain @⟨before, p, q, after, member, named, named', value⟩ := doubles
  have old := readable p member
  obtain ⟨y, holds, rfl⟩ := old.exists_field named known
  have again : R.Holds q (some y) := holds.of_same (named'.trans named.symm) value
  have new : R.Readable q := ⟨value ▸ old.isValue, _, again⟩
  obtain ⟨first, second⟩ := List.forall_mem_append.mp readable
  refine ⟨List.forall_mem_append.mpr ⟨first, List.forall_mem_cons.mpr ⟨new, second⟩⟩, ?_⟩
  rcases List.mem_append.mp member with earlier | later
  · obtain ⟨t, -, read, -⟩ := exists_foldlM accepted
    exact outcome_of_step read (step_again first earlier holds again read)
  · obtain ⟨between, after, rfl⟩ := List.append_of_mem later
    have upTo : before ++ (between ++ p :: after) = (before ++ (between ++ [p])) ++ after := by simp
    rw [upTo] at readable accepted
    obtain ⟨t, -, read, -⟩ := exists_foldlM accepted
    -- the new member takes the place of the old one, which comes too late now
    have early : (before ++ (between ++ [p])).Perm (before ++ p :: between) :=
      (List.perm_append_singleton p between).append_left before
    have read := foldlM_perm early (List.forall_mem_append.mp readable).1 read
    have read : (before ++ q :: between).foldlM R.step R.empty = .ok t := by
      simpa only [List.foldlM_append, List.foldlM_cons, holds.step, again.step] using read
    have readable : ∀ o ∈ before ++ q :: between, R.Readable o :=
      List.forall_mem_append.mpr ⟨first, List.forall_mem_cons.mpr
        ⟨new, (List.forall_mem_append.mp second).1⟩⟩
    have whole : before ++ q :: (between ++ p :: after) =
        (before ++ q :: between) ++ p :: after := by simp
    rw [whole]
    exact outcome_of_step read
      (step_again readable (List.mem_append_right _ List.mem_cons_self) again holds read)

end ObjectReader

end LexicalRuns.Artifact.Document
