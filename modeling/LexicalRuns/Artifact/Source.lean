import LexicalRuns.Database
import LexicalRuns.Run

/-! Source artifacts: the table as source text of a static array, with the types and the accessors
that a program needs to use it. Each run has a line with its packed word, and a comment that names
its first code point. -/
namespace LexicalRuns.Artifact.Source

/-- Two binary digits, as the bits of a rule are written. -/
def binaryText (n : Nat) : String :=
  "0b" ++ toString (n / 2 % 2) ++ toString (n % 2)

def ruleLine (r : Rule) : String := "    " ++ r.label ++ " = " ++ binaryText r.bits ++ ","

/-- The last rule takes all remaining bits, for the unused ones never occur. -/
def armLine (r : Rule) : String :=
  let pattern := if r = .identifierPart then "_" else binaryText r.bits
  "            " ++ pattern ++ " => GrammarRule::" ++ r.label ++ ","

def header : List String :=
  ["// This file was auto-generated by gen_cprun. DO NOT EDIT!",
    "",
    "#[derive(Debug, Clone, Copy, PartialEq, Eq)]",
    "#[repr(u8)]",
    "pub enum GrammarRule \x7b"] ++
  Rule.all.map ruleLine ++
  ["\x7d",
    "",
    "pub const IDENTIFIER_MASK: u8 = " ++ binaryText Rule.identifierMask ++ ";",
    "pub const CODE_POINT_BITS: u32 = " ++ toString Run.codePointBits ++ ";",
    "pub const RUN_LENGTH_BITS: u32 = " ++ toString Run.lengthBits ++ ";",
    "pub const RULE_BITS: u32 = " ++ toString Run.ruleBits ++ ";",
    "",
    "/// One run, packed as code_point | length << " ++ toString Run.codePointBits ++
      " | rule << " ++ toString Run.ruleShift ++ ".",
    "#[derive(Debug, Clone, Copy, PartialEq, Eq)]",
    "pub struct Cprun(pub u32);",
    "",
    "impl Cprun \x7b",
    "    pub const fn code_point(self) -> u32 \x7b",
    "        self.0 & ((1 << CODE_POINT_BITS) - 1)",
    "    \x7d",
    "",
    "    pub const fn length(self) -> u32 \x7b",
    "        (self.0 >> CODE_POINT_BITS) & ((1 << RUN_LENGTH_BITS) - 1)",
    "    \x7d",
    "",
    "    pub const fn rule(self) -> GrammarRule \x7b",
    "        match self.0 >> (CODE_POINT_BITS + RUN_LENGTH_BITS) \x7b"] ++
  Rule.all.map armLine ++
  ["        \x7d",
    "    \x7d",
    "\x7d",
    "",
    "#[rustfmt::skip]"]

def opening (count : Nat) : String :=
  "pub static CODE_POINT_RUNS: [Cprun; " ++ toString count ++ "] = ["

def nameAt (db : Database) (c : Nat) : String :=
  match db[c]? with
  | none => ""
  | some record => record.name

def runLine (db : Database) (r : Run) : String :=
  "    Cprun(0x" ++ Text.Hex.lower 8 r.pack.toNat ++ "), // " ++ CodePoint.label r.start ++ "+" ++
    toString r.length ++ " " ++ nameAt db r.start ++ " (" ++ r.rule.name ++ ")"

def closing : String := "];"

def lines (runs : List Run) (db : Database) : List String :=
  header ++ opening runs.length :: runs.map (runLine db) ++ [closing]

def render (runs : List Run) (db : Database) : String :=
  String.join ((lines runs db).map (· ++ "\n"))

end LexicalRuns.Artifact.Source
