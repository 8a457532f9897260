import LexicalRuns.Proofs.QuotedTexts
import LexicalRuns.Settings

/-! Arguments as requests. From the left, arguments fall into units: a switch is a unit by itself,
and a flag that needs a path is one together with the argument behind it, whatever that looks like.
So what an argument means depends on all that come before it. The requests of the units are all that
changes the settings, and the first argument at which no unit starts is refused. -/
namespace LexicalRuns

inductive Request where
  | unicodeData (path : String)
  | output (path : String)
  | dump
  | noVerify
  deriving DecidableEq

namespace Request

def unicodeDataFlags : List String := ["-u", "--unicode-data"]

def outputFlags : List String := ["-o", "--output"]

def dumpSwitches : List String := ["-d", "--dump"]

def verifySwitches : List String := ["--no-verify"]

def pathFlags : List String := unicodeDataFlags ++ outputFlags

def switches : List String := dumpSwitches ++ verifySwitches

/-- The units that stand for a request. -/
inductive Written : Request → List String → Prop where
  | unicodeData (flag path : String) (known : flag ∈ unicodeDataFlags) :
      Written (.unicodeData path) [flag, path]
  | output (flag path : String) (known : flag ∈ outputFlags) : Written (.output path) [flag, path]
  | dump (switch : String) (known : switch ∈ dumpSwitches) : Written .dump [switch]
  | noVerify (switch : String) (known : switch ∈ verifySwitches) : Written .noVerify [switch]

def unicodeData? : Request → Option String
  | .unicodeData path => some path
  | _ => none

def output? : Request → Option String
  | .output path => some path
  | _ => none

theorem not_switch_of_path {flag : String} (needsPath : flag ∈ pathFlags) : flag ∉ switches := by
  revert flag
  decide

/-- The first argument of a unit tells whether a path belongs to it. -/
theorem exists_written_iff {unit : List String} :
    (∃ request, Written request unit) ↔
      (∃ flag ∈ pathFlags, ∃ path, unit = [flag, path]) ∨ ∃ switch ∈ switches, unit = [switch] := by
  constructor
  · rintro ⟨request, written⟩
    cases written with
    | unicodeData flag path known => exact .inl ⟨flag, List.mem_append_left _ known, path, rfl⟩
    | output flag path known => exact .inl ⟨flag, List.mem_append_right _ known, path, rfl⟩
    | dump switch known => exact .inr ⟨switch, List.mem_append_left _ known, rfl⟩
    | noVerify switch known => exact .inr ⟨switch, List.mem_append_right _ known, rfl⟩
  · rintro (⟨flag, known, path, rfl⟩ | ⟨switch, known, rfl⟩)
    · rcases List.mem_append.mp known with known | known
      · exact ⟨_, .unicodeData flag path known⟩
      · exact ⟨_, .output flag path known⟩
    · rcases List.mem_append.mp known with known | known
      · exact ⟨_, .dump switch known⟩
      · exact ⟨_, .noVerify switch known⟩

theorem Written.ne_nil {request : Request} {unit : List String} (written : request.Written unit) :
    unit ≠ [] := by
  rcases exists_written_iff.mp ⟨request, written⟩ with ⟨_, _, _, rfl⟩ | ⟨_, _, rfl⟩ <;>
    exact List.cons_ne_nil _ _

/-- No unit is the beginning of another. -/
theorem Written.eq_of_append_eq {request other : Request} {unit front rest behind : List String}
    (written : request.Written unit) (writtenOther : other.Written front)
    (same : front ++ behind = unit ++ rest) : front = unit := by
  rcases exists_written_iff.mp ⟨request, written⟩ with
    ⟨flag, known, path, rfl⟩ | ⟨switch, known, rfl⟩ <;>
  rcases exists_written_iff.mp ⟨other, writtenOther⟩ with
    ⟨otherFlag, knownOther, otherPath, rfl⟩ | ⟨otherSwitch, knownOther, rfl⟩ <;>
  simp only [List.cons_append, List.nil_append, List.cons.injEq] at same
  · rw [same.1, same.2.1]
  · exact absurd (same.1 ▸ knownOther) (not_switch_of_path known)
  · exact absurd known (not_switch_of_path (same.1 ▸ knownOther))
  · rw [same.1]

end Request

/-- Units one after the other, with what they ask for. -/
inductive Splits : List Request → List String → Prop where
  | nil : Splits [] []
  | cons {request : Request} {requests : List Request} {unit rest : List String}
      (first : request.Written unit) (later : Splits requests rest) :
      Splits (request :: requests) (unit ++ rest)

theorem Splits.append {requests more : List Request} {args rest : List String}
    (splits : Splits requests args) (later : Splits more rest) :
    Splits (requests ++ more) (args ++ rest) := by
  induction splits with
  | nil => exact later
  | cons first _ ih =>
    rw [List.append_assoc]
    exact .cons first ih

/-- The arguments `before` are the longest part at the front that splits, and `arg` comes next. -/
structure BreaksAt (args before : List String) (arg : String) (rest : List String) : Prop where
  whole : args = before ++ arg :: rest
  splits : ∃ requests, Splits requests before
  longest : ∀ requests front, Splits requests front → front <+: args → front <+: before

/-- Arguments at the front that split either are none, or go on behind the first unit. -/
theorem BreaksAt.prepend {args before rest unit : List String} {arg : String} {request : Request}
    (h : BreaksAt args before arg rest) (written : request.Written unit) :
    BreaksAt (unit ++ args) (unit ++ before) arg rest := by
  refine ⟨by rw [h.whole, List.append_assoc], ?splits, ?longest⟩
  case splits =>
    obtain ⟨requests, splits⟩ := h.splits
    exact ⟨request :: requests, .cons written splits⟩
  case longest =>
    intro requests front splits starts
    cases splits with
    | nil => exact List.nil_prefix
    | @cons other others first more writtenOther later =>
      obtain ⟨behind, same⟩ := starts
      rw [List.append_assoc] at same
      obtain rfl := written.eq_of_append_eq writtenOther same
      have starts : more <+: args := ⟨behind, List.append_cancel_left same⟩
      exact (List.prefix_append_right_inj first).mpr (h.longest others more later starts)

/-- A unit behind the longest part that splits would make it longer. -/
theorem BreaksAt.not_prefix {args before rest unit : List String} {arg : String}
    {request : Request} (h : BreaksAt args before arg rest) (written : request.Written unit) :
    ¬unit <+: arg :: rest := by
  rintro ⟨behind, starts⟩
  obtain ⟨requests, splits⟩ := h.splits
  have longer : Splits (requests ++ [request]) (before ++ (unit ++ [])) :=
    splits.append (.cons written .nil)
  rw [List.append_nil] at longer
  have within : before ++ unit <+: args :=
    ⟨behind, by rw [h.whole, ← starts, List.append_assoc]⟩
  have short := (h.longest _ _ longer within).length_le
  have positive := List.length_pos_iff.mpr written.ne_nil
  rw [List.length_append] at short
  omega

theorem breaksAt_nil {arg : String} {rest : List String}
    (broken : ∀ request unit, Request.Written request unit → ¬unit <+: arg :: rest) :
    BreaksAt (arg :: rest) [] arg rest := by
  refine ⟨rfl, ⟨[], .nil⟩, fun requests front splits starts => ?_⟩
  cases splits with
  | nil => exact List.nil_prefix
  | cons first later =>
    have unitStarts := (List.prefix_append _ _).trans starts
    exact absurd unitStarts (broken _ _ first)

theorem splits_or_breaksAt (args : List String) :
    (∃ requests, Splits requests args) ∨ ∃ before arg rest, BreaksAt args before arg rest := by
  by_cases starts : ∃ request unit rest, Request.Written request unit ∧ args = unit ++ rest
  · obtain ⟨request, unit, rest, written, rfl⟩ := starts
    have shorter : rest.length < (unit ++ rest).length := by
      have := List.length_pos_iff.mpr written.ne_nil
      rw [List.length_append]
      omega
    rcases splits_or_breaksAt rest with ⟨requests, splits⟩ | ⟨before, arg, more, breaks⟩
    · exact .inl ⟨request :: requests, .cons written splits⟩
    · exact .inr ⟨unit ++ before, arg, more, breaks.prepend written⟩
  · cases args with
    | nil => exact .inl ⟨[], .nil⟩
    | cons arg rest =>
      refine .inr ⟨[], arg, rest, breaksAt_nil ?_⟩
      rintro request unit written ⟨behind, whole⟩
      exact starts ⟨request, unit, behind, written, whole.symm⟩
termination_by args.length

/-- What is said about the argument at which the units end. -/
inductive Complaint (arg : String) (rest : List String) : String → Prop where
  | missingPath (needsPath : arg ∈ Request.pathFlags) (last : rest = []) :
      Complaint arg rest (arg ++ " needs a path")
  | unknown (notFlag : arg ∉ Request.pathFlags) (notSwitch : arg ∉ Request.switches)
      {shown : String} (quotes : Text.Quotes arg shown) :
      Complaint arg rest ("unknown argument " ++ shown)

theorem BreaksAt.last_or_unknown {args before rest : List String} {arg : String}
    (h : BreaksAt args before arg rest) :
    (arg ∈ Request.pathFlags ∧ rest = []) ∨
      (arg ∉ Request.pathFlags ∧ arg ∉ Request.switches) := by
  by_cases needsPath : arg ∈ Request.pathFlags
  · cases rest with
    | nil => exact .inl ⟨needsPath, rfl⟩
    | cons path rest =>
      obtain ⟨request, written⟩ :=
        Request.exists_written_iff.mpr (.inl ⟨arg, needsPath, path, rfl⟩)
      exact absurd (List.prefix_append [arg, path] rest) (h.not_prefix written)
  · refine .inr ⟨needsPath, fun switch => ?_⟩
    obtain ⟨request, written⟩ := Request.exists_written_iff.mpr (.inr ⟨arg, switch, rfl⟩)
    exact absurd (List.prefix_append [arg] rest) (h.not_prefix written)

theorem Complaint.unique {arg text other : String} {rest : List String}
    (complaint : Complaint arg rest text) (second : Complaint arg rest other) : text = other := by
  cases complaint with
  | missingPath needsPath =>
    cases second with
    | missingPath => rfl
    | unknown notFlag => exact absurd needsPath notFlag
  | unknown notFlag _ quotes =>
    cases second with
    | missingPath needsPath => exact absurd needsPath notFlag
    | unknown _ _ again => rw [quotes.unique again]

/-- The flag and the quoted text are in the message, and neither can be taken for the other. -/
theorem Complaint.arg_eq {arg other text : String} {rest more : List String}
    (complaint : Complaint arg rest text) (second : Complaint other more text) : arg = other := by
  have apart : ∀ flag ∈ Request.pathFlags, ∀ shown : String,
      flag ++ " needs a path" ≠ "unknown argument " ++ shown := by
    intro flag needsPath shown same
    have starts := congrArg (fun text => text.toList.head?) same
    have dash : ∀ flag ∈ Request.pathFlags, flag.toList.head? = some '-' := by decide
    simp only [String.toList_append, List.head?_append, dash flag needsPath] at starts
    cases starts
  generalize named : text = message at second
  cases complaint with
  | missingPath needsPath =>
    cases second with
    | missingPath => exact (String.append_left_inj _).mp named
    | unknown => exact absurd named (apart _ needsPath _)
  | unknown _ _ quotes =>
    cases second with
    | missingPath needsPath => exact absurd named.symm (apart _ needsPath _)
    | unknown _ _ again =>
      obtain rfl := (String.append_right_inj _).mp named
      exact quotes.text_eq again

namespace Settings

/-- The last path that is asked for counts, and a switch cannot be taken back. -/
def granting (s : Settings) (requests : List Request) : Settings where
  unicodeData := (requests.filterMap Request.unicodeData?).getLast?.getD s.unicodeData
  output := (requests.filterMap Request.output?).getLast?.getD s.output
  dump := s.dump || Request.dump ∈ requests
  verify := s.verify && Request.noVerify ∉ requests

@[simp] theorem granting_nil (s : Settings) : s.granting [] = s := by
  simp [granting]

@[simp] theorem granting_unicodeData (s : Settings) (path : String) :
    s.granting [.unicodeData path] = { s with unicodeData := path } := by
  simp [granting, Request.unicodeData?, Request.output?]

@[simp] theorem granting_output (s : Settings) (path : String) :
    s.granting [.output path] = { s with output := path } := by
  simp [granting, Request.unicodeData?, Request.output?]

@[simp] theorem granting_dump (s : Settings) : s.granting [.dump] = { s with dump := true } := by
  simp [granting, Request.unicodeData?, Request.output?]

@[simp] theorem granting_noVerify (s : Settings) :
    s.granting [.noVerify] = { s with verify := false } := by
  simp [granting, Request.unicodeData?, Request.output?]

theorem granting_append (s : Settings) (requests more : List Request) :
    s.granting (requests ++ more) = (s.granting requests).granting more := by
  simp [granting, List.getLast?_append, Option.getD_or, Bool.or_assoc, Bool.and_assoc]

theorem withArguments_unit (s : Settings) {request : Request} {unit : List String}
    (written : request.Written unit) (rest : List String) :
    s.withArguments (unit ++ rest) = (s.granting [request]).withArguments rest := by
  cases written with
  | unicodeData flag path known =>
    rw [List.cons_append, List.singleton_append, withArguments.eq_def s (flag :: path :: rest)]
    simp only [Request.unicodeDataFlags, List.mem_cons, List.not_mem_nil, or_false] at known
    rcases known with rfl | rfl <;> simp
  | output flag path known =>
    rw [List.cons_append, List.singleton_append, withArguments.eq_def s (flag :: path :: rest)]
    simp only [Request.outputFlags, List.mem_cons, List.not_mem_nil, or_false] at known
    rcases known with rfl | rfl <;> simp
  | dump switch known =>
    rw [List.singleton_append, withArguments.eq_def s (switch :: rest)]
    simp only [Request.dumpSwitches, List.mem_cons, List.not_mem_nil, or_false] at known
    rcases known with rfl | rfl <;> simp
  | noVerify switch known =>
    rw [List.singleton_append, withArguments.eq_def s (switch :: rest)]
    obtain rfl := List.mem_singleton.mp known
    simp

theorem withArguments_append (s : Settings) {requests : List Request} {args : List String}
    (splits : Splits requests args) (rest : List String) :
    s.withArguments (args ++ rest) = (s.granting requests).withArguments rest := by
  induction splits generalizing s with
  | nil => rw [granting_nil, List.nil_append]
  | @cons request requests unit later first _ ih =>
    rw [List.append_assoc, s.withArguments_unit first, ih, ← granting_append, List.singleton_append]

theorem withArguments_of_splits (s : Settings) {requests : List Request} {args : List String}
    (splits : Splits requests args) : s.withArguments args = .ok (s.granting requests) := by
  have alone := s.withArguments_append splits []
  rwa [List.append_nil] at alone

theorem exists_complaint (s : Settings) {arg : String} {rest : List String}
    (refused : (arg ∈ Request.pathFlags ∧ rest = []) ∨
      (arg ∉ Request.pathFlags ∧ arg ∉ Request.switches)) :
    ∃ fault, s.withArguments (arg :: rest) = .error fault ∧ Complaint arg rest fault.message := by
  rcases refused with ⟨needsPath, rfl⟩ | ⟨notFlag, notSwitch⟩
  · refine ⟨.missingPath arg, ?_, .missingPath needsPath rfl⟩
    simp only [Request.pathFlags, Request.unicodeDataFlags, Request.outputFlags, List.cons_append,
      List.nil_append, List.mem_cons, List.not_mem_nil, or_false] at needsPath
    rcases needsPath with rfl | rfl | rfl | rfl <;> simp [withArguments]
  · refine ⟨.unknown arg, ?_, .unknown notFlag notSwitch (Text.quotes_quote arg)⟩
    simp only [Request.pathFlags, Request.unicodeDataFlags, Request.outputFlags, Request.switches,
      Request.dumpSwitches, Request.verifySwitches, List.cons_append,
      List.nil_append, List.mem_cons, List.not_mem_nil, or_false, not_or] at notFlag notSwitch
    unfold withArguments
    simp [notFlag, notSwitch]

theorem withArguments_of_breaksAt (s : Settings) {args before rest : List String} {arg : String}
    (breaks : BreaksAt args before arg rest) :
    ∃ fault, s.withArguments args = .error fault ∧ Complaint arg rest fault.message := by
  obtain ⟨requests, splits⟩ := breaks.splits
  rw [breaks.whole, s.withArguments_append splits]
  exact (s.granting requests).exists_complaint breaks.last_or_unknown

theorem withArguments_eq_ok_iff (s : Settings) (args : List String) (t : Settings) :
    s.withArguments args = .ok t ↔ ∃ requests, Splits requests args ∧ t = s.granting requests := by
  constructor
  · intro accepted
    rcases splits_or_breaksAt args with ⟨requests, splits⟩ | ⟨before, arg, rest, breaks⟩
    · rw [s.withArguments_of_splits splits] at accepted
      cases accepted
      exact ⟨requests, splits, rfl⟩
    · obtain ⟨fault, refused, _⟩ := s.withArguments_of_breaksAt breaks
      rw [refused] at accepted
      cases accepted
  · rintro ⟨requests, splits, rfl⟩
    exact s.withArguments_of_splits splits

theorem exists_message_iff (s : Settings) (args : List String) (text : String) :
    (∃ fault, s.withArguments args = .error fault ∧ fault.message = text) ↔
      ∃ before arg rest, BreaksAt args before arg rest ∧ Complaint arg rest text := by
  constructor
  · rintro ⟨fault, refused, rfl⟩
    rcases splits_or_breaksAt args with ⟨requests, splits⟩ | ⟨before, arg, rest, breaks⟩
    · rw [s.withArguments_of_splits splits] at refused
      cases refused
    · obtain ⟨found, same, complaint⟩ := s.withArguments_of_breaksAt breaks
      rw [same] at refused
      cases refused
      exact ⟨before, arg, rest, breaks, complaint⟩
  · rintro ⟨before, arg, rest, breaks, complaint⟩
    obtain ⟨fault, refused, found⟩ := s.withArguments_of_breaksAt breaks
    exact ⟨fault, refused, found.unique complaint⟩

/-- Arguments are accepted exactly if they fall into units, and then the settings are those that the
units ask for; the path that is asked for last counts. Otherwise the message says what is wrong with
the argument at which the units end, and it can only be about that one. Accepted arguments do their
work before any that follow them. -/
theorem withArguments_exact (s : Settings) (args : List String) :
    (∀ t, s.withArguments args = .ok t ↔
      ∃ requests, Splits requests args ∧ t = s.granting requests) ∧
    (∀ text, (∃ fault, s.withArguments args = .error fault ∧ fault.message = text) ↔
      ∃ before arg rest, BreaksAt args before arg rest ∧ Complaint arg rest text) ∧
    (∀ arg other rest more text, Complaint arg rest text → Complaint other more text →
      arg = other) ∧
    ∀ t, s.withArguments args = .ok t →
      ∀ more, s.withArguments (args ++ more) = t.withArguments more := by
  refine ⟨s.withArguments_eq_ok_iff args, s.exists_message_iff args,
    fun _ _ _ _ _ first second => first.arg_eq second, fun t accepted more => ?_⟩
  obtain ⟨requests, splits, rfl⟩ := (s.withArguments_eq_ok_iff args t).mp accepted
  exact s.withArguments_append splits more

/-- A switch behind a flag is its path; a flag at the end is left without one, and what is neither
is quoted. -/
theorem withArguments_exact_switch_as_path :
    ∃ t, (ofEnvironment ⟨none, none, none⟩).withArguments ["-o", "--dump", "-d"] = .ok t ∧
      t.output = "--dump" ∧ t.dump = true ∧
      BreaksAt ["-o", "--dump", "-d", "-u"] ["-o", "--dump", "-d"] "-u" [] ∧
      (∃ fault, t.withArguments ["-u"] = .error fault ∧ fault.message = "-u needs a path") ∧
      ∃ fault, t.withArguments ["--\"\n", "-u"] = .error fault ∧
        fault.message = "unknown argument \"--\\\"\\n\"" := by
  have output : Request.Written (.output "--dump") ["-o", "--dump"] := .output _ _ (by decide)
  have dump : Request.Written .dump ["-d"] := .dump _ (by decide)
  have alone : BreaksAt ["-u"] [] "-u" [] := by
    apply breaksAt_nil
    intro request unit written starts
    rcases Request.exists_written_iff.mp ⟨request, written⟩ with
      ⟨flag, _, path, rfl⟩ | ⟨switch, known, rfl⟩
    · exact absurd starts.length_le (by simp)
    · obtain rfl : switch = "-u" := by simpa using starts
      exact absurd known (by decide)
  have unknown : BreaksAt ["--\"\n", "-u"] [] "--\"\n" ["-u"] := by
    apply breaksAt_nil
    intro request unit written starts
    rcases Request.exists_written_iff.mp ⟨request, written⟩ with
      ⟨flag, known, path, rfl⟩ | ⟨switch, known, rfl⟩
    · obtain ⟨rfl, _⟩ := List.cons_prefix_cons.mp starts
      exact absurd known (by decide)
    · obtain ⟨rfl, _⟩ := List.cons_prefix_cons.mp starts
      exact absurd known (by decide)
  have breaks := (alone.prepend dump).prepend output
  obtain ⟨accepts, _, _, continues⟩ :=
    withArguments_exact (ofEnvironment ⟨none, none, none⟩) ["-o", "--dump", "-d"]
  obtain ⟨_, refuses, _⟩ :=
    withArguments_exact (ofEnvironment ⟨none, none, none⟩) ["-o", "--dump", "-d", "-u"]
  have accepted := (accepts _).mpr ⟨_, .cons output (.cons dump .nil), rfl⟩
  obtain ⟨fault, refused, message⟩ :=
    (refuses _).mpr ⟨_, _, _, breaks, .missingPath (by decide) rfl⟩
  obtain ⟨_, refusesToo, _⟩ := withArguments_exact
    ((ofEnvironment ⟨none, none, none⟩).granting [.output "--dump", .dump]) ["--\"\n", "-u"]
  have dash : Text.Escapes '-' ['-'] :=
    Text.escapes_printable (by decide) (by decide) (by decide) (by decide)
  have shown : Text.Quotes "--\"\n" "\"--\\\"\\n\"" :=
    ⟨_, .cons dash (.cons dash (.cons (.letter (by decide)) (.cons (.letter (by decide)) .nil))),
      rfl⟩
  obtain ⟨other, refusedToo, complaint⟩ :=
    (refusesToo _).mpr ⟨_, _, _, unknown, .unknown (by decide) (by decide) shown⟩
  refine ⟨_, accepted, rfl, rfl, breaks, ⟨fault, ?_, message⟩, other, refusedToo, complaint⟩
  exact (continues _ accepted ["-u"]).symm.trans refused

end Settings

end LexicalRuns
